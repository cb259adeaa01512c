import ExternalStorage.Catalog.Upserts

/-!
# The two ways to claim a code

`upsertProblem` and `markProblemDirtyIdempotent` both take a code over from the orphan of
its folder.  The second knows only the rekey: where the problem has a row of its own, the
primary key turns it down.
-/

namespace ExternalStorage.Catalog

open ExternalStorage.Model Library.Table

/-! ## What a claim leaves -/

def codeOwner (code : String) (problems : List ProblemRow) : Option String :=
  (problems.find? fun p => p.code = code).map ProblemRow.externalId

structure LocalAccounting where
  logicalBytes : Int
  allocatedBytes : Int
  archiveBytes : Int
  auxiliaryBytes : Int
  fileCount : Int
  orphanBytes : Int
  deriving DecidableEq, Repr

def accountingOf (externalId : String) (usage : List ProblemUsageRow) : Option LocalAccounting :=
  (usage.find? fun u => u.problemId = externalId).map fun u =>
    ⟨u.logicalBytes, u.allocatedBytes, u.archiveBytes, u.auxiliaryBytes, u.fileCount,
      u.orphanBytes⟩

/-- The constraints of the schema that a claim meets. -/
structure SchemaOk (db : Database) : Prop where
  problems : UniqueProblems db.problems
  usage : ∀ u ∈ db.problemUsage, Stored u.problemId db.problems

/-- Both claims of the code come to the same. -/
structure ClaimsAgree (e : CatalogEntry) (db upserted marked : Database) : Prop where
  owner : codeOwner e.code upserted.problems = some e.externalId
  sameOwner : codeOwner e.code marked.problems = codeOwner e.code upserted.problems
  gone : ¬ Stored (orphanId e.code) upserted.problems
  sameGone : ¬ Stored (orphanId e.code) marked.problems
  attached : OrphanHolds e.code db.problems →
    accountingOf e.externalId upserted.problemUsage =
      accountingOf (orphanId e.code) db.problemUsage
  sameAccounting : accountingOf e.externalId marked.problemUsage =
    accountingOf e.externalId upserted.problemUsage

/-- The claim has nothing to merge, and `orphan:<code>` names the orphan only. -/
structure NothingToMerge (e : CatalogEntry) (problems : List ProblemRow) : Prop where
  fresh : OrphanHolds e.code problems → ¬ Stored e.externalId problems
  named : ∀ p ∈ problems, p.externalId = orphanId e.code → isOrphanOf e.code p = true
  other : e.externalId ≠ orphanId e.code


/-! ## The rows after a claim -/

section Rows

variable {problems : List ProblemRow} {new : ProblemRow} {merge : ProblemRow → ProblemRow}

theorem codeOwner_eq_some {code externalId : String} (hstored : ∃ p ∈ problems, p.code = code)
    (hown : ∀ p ∈ problems, p.code = code → p.externalId = externalId) :
    codeOwner code problems = some externalId := by
  unfold codeOwner
  cases hfound : problems.find? fun p => p.code = code with
  | none =>
      obtain ⟨p, hp, hcode⟩ := hstored
      have hne := List.find?_eq_none.mp hfound p hp
      simp [hcode] at hne
  | some p =>
      have hcode : p.code = code := by simpa using List.find?_some hfound
      rw [Option.map_some, hown p (List.mem_of_find?_eq_some hfound) hcode]

theorem stored_upsertOn (hid : ∀ p, (merge p).externalId = p.externalId) (externalId : String) :
    Stored externalId (upsertOn ProblemRow.externalId new merge problems) ↔
      Stored externalId problems ∨ externalId = new.externalId := by
  constructor
  · rintro ⟨p, hp, rfl⟩
    rcases mem_upsertOn.mp hp with ⟨hp, -⟩ | ⟨p₀, hp₀, hkey, rfl⟩ | ⟨rfl, -⟩
    · exact .inl ⟨p, hp, rfl⟩
    · exact .inr ((hid p₀).trans hkey)
    · exact .inr rfl
  · intro h
    by_cases hfree : ∀ p ∈ problems, p.externalId ≠ new.externalId
    · rcases h with ⟨p, hp, rfl⟩ | rfl
      · exact ⟨p, mem_upsertOn.mpr (.inl ⟨hp, hfree p hp⟩), rfl⟩
      · exact ⟨new, mem_upsertOn.mpr (.inr (.inr ⟨rfl, hfree⟩)), rfl⟩
    · simp only [not_forall, not_not] at hfree
      obtain ⟨p₁, hp₁, hkey₁⟩ := hfree
      have hmerged : merge p₁ ∈ upsertOn ProblemRow.externalId new merge problems :=
        mem_upsertOn.mpr (.inr (.inl ⟨p₁, hp₁, hkey₁, rfl⟩))
      rcases h with ⟨p, hp, rfl⟩ | rfl
      · by_cases hkey : p.externalId = new.externalId
        · exact ⟨merge p₁, hmerged, (hid p₁).trans (hkey₁.trans hkey.symm)⟩
        · exact ⟨p, mem_upsertOn.mpr (.inl ⟨hp, hkey⟩), rfl⟩
      · exact ⟨merge p₁, hmerged, (hid p₁).trans hkey₁⟩

/-- A row that is written under a free code, or its own, owns it. -/
theorem codeOwner_upsertOn {code externalId : String} (hnewCode : new.code = code)
    (hnewId : new.externalId = externalId) (hid : ∀ p, (merge p).externalId = p.externalId)
    (hcode : ∀ p, (merge p).code = code)
    (hfree : ∀ p ∈ problems, p.code = code → p.externalId = externalId) :
    codeOwner code (upsertOn ProblemRow.externalId new merge problems) = some externalId := by
  subst hnewCode hnewId
  apply codeOwner_eq_some
  · have hstored :
        Stored new.externalId (upsertOn ProblemRow.externalId new merge problems) :=
      (stored_upsertOn hid new.externalId).mpr (.inr rfl)
    obtain ⟨p, hp, hkey⟩ := hstored
    refine ⟨p, hp, ?_⟩
    rcases mem_upsertOn.mp hp with ⟨-, hne⟩ | ⟨p₀, -, -, rfl⟩ | ⟨rfl, -⟩
    · exact absurd hkey hne
    · exact hcode p₀
    · rfl
  · intro p hp hpcode
    rcases mem_upsertOn.mp hp with ⟨hp, -⟩ | ⟨p₀, -, hkey, rfl⟩ | ⟨rfl, -⟩
    · exact hfree p hp hpcode
    · exact (hid p₀).trans hkey
    · rfl

theorem codeOwner_updateWhere {p : ProblemRow → Bool} {f : ProblemRow → ProblemRow}
    (hid : ∀ q, (f q).externalId = q.externalId) (hcode : ∀ q, (f q).code = q.code)
    (code : String) : codeOwner code (updateWhere p f problems) = codeOwner code problems := by
  have hview : ∀ rows : List ProblemRow, codeOwner code rows =
      ((rows.map fun q => (q.code, q.externalId)).find? fun v => v.1 = code).map Prod.snd := by
    intro rows
    rw [List.find?_map, Option.map_map]
    rfl
  rw [hview, hview, map_updateWhere]
  intro q
  rw [hid, hcode]

end Rows

/-! ## The dirty notification -/

/-- No request has used the key. -/
def FreshKey (idempotencyKey : String) (db : Database) : Prop :=
  ∀ k ∈ db.idempotencyKeys, ¬ (k.idempotencyKey = idempotencyKey ∧ k.scope = "problem.dirty")

theorem FreshKey.find {idempotencyKey : String} {db : Database} (h : FreshKey idempotencyKey db) :
    (db.idempotencyKeys.find? fun k =>
      k.idempotencyKey = idempotencyKey && k.scope = "problem.dirty") = none := by
  rw [List.find?_eq_none]
  intro k hk
  simpa using h k hk

theorem FreshKey.rekeyProblem {idempotencyKey : String} {db : Database}
    (h : FreshKey idempotencyKey db) (old new : String) :
    FreshKey idempotencyKey (rekeyProblem old new db) := by
  intro k hk
  obtain ⟨k₀, hk₀, rfl⟩ := List.mem_map.mp hk
  exact h k₀ hk₀

theorem freshKey_rekeyProblem {idempotencyKey old new : String} {db : Database} :
    FreshKey idempotencyKey (Model.rekeyProblem old new db) ↔ FreshKey idempotencyKey db := by
  constructor
  · intro h k hk
    have hrenamed : { k with responseProblemId := k.responseProblemId.map (renamed old new) } ∈
        (Model.rekeyProblem old new db).idempotencyKeys := List.mem_map_of_mem hk
    have hunused := h _ hrenamed
    exact hunused
  · exact fun h => h.rekeyProblem old new

/-- The row of the key has been written for this body. -/
def Repeats (idempotencyKey fingerprint externalId : String) (k : IdempotencyKeyRow) : Prop :=
  (k.idempotencyKey = idempotencyKey ∧ k.scope = "problem.dirty") ∧
    k.requestFingerprint = fingerprint ∧ k.targetId = externalId

/-- A notification settles its code; then it is a replay of its body, or it mutates the
problem. -/
theorem markProblemDirtyIdempotent_ok {now : Timestamp} {key actor fingerprint : String}
    {e : CatalogEntry} {deleted mutated : Bool} {db db' : Database}
    (h : markProblemDirtyIdempotent now key actor fingerprint e deleted db = .ok (db', mutated)) :
    ∃ claimed, claimCode e db = .ok claimed ∧
      (mutated = false ∧ db' = claimed ∧
          (∃ k ∈ claimed.idempotencyKeys, Repeats key fingerprint e.externalId k) ∨
        mutated = true ∧ FreshKey key claimed ∧ codeTaken e claimed.problems = false ∧
          db' = { notifyProblem now e deleted claimed with
            idempotencyKeys := claimed.idempotencyKeys ++
              [⟨key, "problem.dirty", actor, fingerprint, e.externalId, some e.externalId⟩] }) := by
  unfold markProblemDirtyIdempotent at h
  cases hclaimed : claimCode e db with
  | error err =>
      rw [hclaimed] at h
      cases h
  | ok claimed =>
      rw [hclaimed] at h
      simp only [bind, Except.bind] at h
      refine ⟨claimed, rfl, ?_⟩
      split at h
      · rename_i k hfound
        have hkey : k.idempotencyKey = key ∧ k.scope = "problem.dirty" := by
          simpa using List.find?_some hfound
        split at h
        · cases h
        · rename_i hsame
          simp only [ne_eq, Bool.or_eq_true, decide_eq_true_eq, not_or, not_not] at hsame
          split at h
          · cases h
            exact .inl ⟨rfl, rfl, k, List.mem_of_find?_eq_some hfound, hkey, hsame⟩
          · cases h
      · rename_i hnone
        have hfresh : FreshKey key claimed := by
          intro k hk
          simpa using List.find?_eq_none.mp hnone k hk
        split at h
        · cases h
        · rename_i htaken
          cases h
          exact .inr ⟨rfl, hfresh, by simpa using htaken, rfl⟩

theorem markProblemDirtyIdempotent_cases {now : Timestamp} {key actor fingerprint : String}
    {e : CatalogEntry} {deleted mutated : Bool} {db db' : Database}
    (h : markProblemDirtyIdempotent now key actor fingerprint e deleted db = .ok (db', mutated)) :
    ∃ claimed, claimCode e db = .ok claimed ∧
      (¬ FreshKey key claimed ∧ db' = claimed ∨
        FreshKey key claimed ∧ db' = { notifyProblem now e deleted claimed with
          idempotencyKeys := claimed.idempotencyKeys ++
            [⟨key, "problem.dirty", actor, fingerprint, e.externalId, some e.externalId⟩] }) := by
  obtain ⟨claimed, hclaimed, ⟨-, hdb, k, hk, hkey, -⟩ | ⟨-, hfresh, -, hdb⟩⟩ :=
    markProblemDirtyIdempotent_ok h
  · exact ⟨claimed, hclaimed, .inl ⟨fun hfresh => hfresh k hk hkey, hdb⟩⟩
  · exact ⟨claimed, hclaimed, .inr ⟨hfresh, hdb⟩⟩

theorem mark_of_claimCode {now : Timestamp} {key actor fingerprint : String} {e : CatalogEntry}
    {db claimed : Database} (hclaim : claimCode e db = .ok claimed) (hfresh : FreshKey key claimed)
    (htaken : codeTaken e claimed.problems = false) :
    markProblemDirtyIdempotent now key actor fingerprint e false db =
      .ok ({ notifyProblem now e false claimed with
        idempotencyKeys := claimed.idempotencyKeys ++
          [⟨key, "problem.dirty", actor, fingerprint, e.externalId, some e.externalId⟩] }, true) := by
  unfold markProblemDirtyIdempotent
  rw [hclaim]
  simp only [bind, Except.bind, hfresh.find, htaken]
  rfl

theorem mark_of_claimCode_error {now : Timestamp} {key actor fingerprint : String}
    {e : CatalogEntry} {db : Database} {err : CatalogError} (hclaim : claimCode e db = .error err) :
    markProblemDirtyIdempotent now key actor fingerprint e false db = .error err := by
  unfold markProblemDirtyIdempotent
  rw [hclaim]
  rfl

/-! ## Agreement -/

section Agreement

variable {e : CatalogEntry} {resolved : Database}

theorem codeOwner_cataloged (now : Timestamp) (htaken : codeTaken e resolved.problems = false) :
    codeOwner e.code (cataloged now e resolved.problems) = some e.externalId :=
  codeOwner_upsertOn rfl rfl (by intro p; rfl) (by intro p; rfl) (codeTaken_eq_false.mp htaken)

theorem codeOwner_notified (now : Timestamp) (htaken : codeTaken e resolved.problems = false) :
    codeOwner e.code (notifyProblem now e false resolved).problems = some e.externalId := by
  have howner : codeOwner e.code
      (upsertOn ProblemRow.externalId
        { catalogRow now e .present with dirty := true, dirtyVersion := 1, stale := true }
        (ProblemRow.notified now e) resolved.problems) = some e.externalId :=
    codeOwner_upsertOn rfl rfl (by intro p; rfl) (by intro p; rfl) (codeTaken_eq_false.mp htaken)
  rw [← howner]
  exact codeOwner_updateWhere (by intro p; rfl) (by intro p; rfl) e.code

theorem stored_cataloged (now : Timestamp) (externalId : String) :
    Stored externalId (cataloged now e resolved.problems) ↔
      Stored externalId resolved.problems ∨ externalId = e.externalId :=
  stored_upsertOn (by intro p; rfl) externalId

theorem stored_notified (now : Timestamp) (externalId : String) :
    Stored externalId (notifyProblem now e false resolved).problems ↔
      Stored externalId resolved.problems ∨ externalId = e.externalId := by
  refine Iff.trans (stored_updateWhere (by intro p; rfl) _ externalId) ?_
  exact stored_upsertOn (by intro p; rfl) externalId

/-- Writes that settle the code in the same way agree once the orphan is gone and its
accounting is the problem's. -/
theorem claimsAgree_iff {now later : Timestamp} {db : Database} {keys : List IdempotencyKeyRow}
    (htaken : codeTaken e resolved.problems = false) :
    ClaimsAgree e db { resolved with problems := cataloged now e resolved.problems }
        { notifyProblem later e false resolved with idempotencyKeys := keys } ↔
      ¬ Stored (orphanId e.code) resolved.problems ∧ orphanId e.code ≠ e.externalId ∧
        (OrphanHolds e.code db.problems → accountingOf e.externalId resolved.problemUsage =
          accountingOf (orphanId e.code) db.problemUsage) := by
  constructor
  · intro h
    have hgone := h.gone
    rw [stored_cataloged, not_or] at hgone
    exact ⟨hgone.1, hgone.2, h.attached⟩
  · rintro ⟨hgone, hother, hattached⟩
    refine ⟨codeOwner_cataloged now htaken, ?_, ?_, ?_, hattached, rfl⟩
    · rw [codeOwner_notified later htaken, codeOwner_cataloged now htaken]
    · rw [stored_cataloged, not_or]
      exact ⟨hgone, hother⟩
    · rw [stored_notified, not_or]
      exact ⟨hgone, hother⟩

end Agreement

/-! ## The rekey -/

section Rekey

variable {old new : String} {db : Database}

theorem stored_rekeyProblem (externalId : String) :
    Stored externalId (rekeyProblem old new db).problems ↔
      ∃ p ∈ db.problems, renamed old new p.externalId = externalId := by
  constructor
  · rintro ⟨p, hp, hid⟩
    obtain ⟨p₀, hp₀, rfl⟩ := List.mem_map.mp hp
    exact ⟨p₀, hp₀, hid⟩
  · rintro ⟨p₀, hp₀, hid⟩
    exact ⟨_, List.mem_map_of_mem hp₀, hid⟩

theorem not_stored_rekeyProblem (hne : old ≠ new) :
    ¬ Stored old (rekeyProblem old new db).problems := by
  rw [stored_rekeyProblem]
  rintro ⟨p, -, hid⟩
  unfold renamed at hid
  split at hid
  · exact hne hid.symm
  · rename_i hold
    exact hold hid

theorem accountingOf_rekeyProblem (hfresh : ∀ u ∈ db.problemUsage, u.problemId ≠ new) :
    accountingOf new (rekeyProblem old new db).problemUsage = accountingOf old db.problemUsage := by
  unfold accountingOf rekeyProblem
  rw [List.find?_map, Option.map_map]
  have hsame : (db.problemUsage.find?
      ((fun u => decide (u.problemId = new)) ∘
        fun u => { u with problemId := renamed old new u.problemId })) =
      db.problemUsage.find? fun u => u.problemId = old := by
    rw [← List.head?_filter, ← List.head?_filter]
    congr 1
    apply List.filter_congr
    intro u hu
    simp only [Function.comp_apply, renamed, decide_eq_decide]
    split
    · rename_i hold
      simp [hold]
    · rename_i hold
      exact ⟨fun h => absurd h (hfresh u hu), fun h => absurd h hold⟩
  rw [hsame]
  rfl

end Rekey

/-! ## The claims agree when there is nothing to merge -/

variable {now later : Timestamp} {key actor fingerprint : String} {e : CatalogEntry}
  {db upserted : Database}

theorem catalog_claims_agree (hschema : SchemaOk db) (hfresh : FreshKey key db)
    (hup : upsertProblem now e db = .ok upserted) :
    (∃ marked, markProblemDirtyIdempotent later key actor fingerprint e false db =
        .ok (marked, true) ∧ ClaimsAgree e db upserted marked) ↔
      NothingToMerge e db.problems := by
  obtain ⟨resolved, hresolved, htaken, rfl⟩ := upsertProblem_eq_ok.mp hup
  cases finds e db.problems with
  | free hown =>
      rw [resolveCode_free hown] at hresolved
      cases hresolved
      rw [mark_of_claimCode (claimCode_free hown) hfresh htaken]
      have hholder : OrphanHolds e.code db.problems → orphanId e.code = e.externalId := by
        rintro ⟨p, hp, horphan⟩
        obtain ⟨hcode, hid, -⟩ := isOrphanOf_eq_true.mp horphan
        exact hid.symm.trans (hown p hp hcode)
      constructor
      · rintro ⟨marked, hmarked, hagree⟩
        cases hmarked
        obtain ⟨hgone, hother, -⟩ := (claimsAgree_iff htaken).mp hagree
        exact ⟨fun h => absurd (hholder h) hother, fun p hp hid => absurd ⟨p, hp, hid⟩ hgone,
          hother.symm⟩
      · intro h
        refine ⟨_, rfl, (claimsAgree_iff htaken).mpr ⟨?_, h.other.symm, ?_⟩⟩
        · rintro ⟨p, hp, hid⟩
          exact h.other.symm (hholder ⟨p, hp, h.named p hp hid⟩)
        · intro hholds
          exact absurd (hholder hholds) h.other.symm
  | merge orphan hmem horphan hother hstored =>
      rw [mark_of_claimCode_error (claimCode_merge hschema.problems hmem horphan hother hstored)]
      constructor
      · rintro ⟨marked, hmarked, -⟩
        cases hmarked
      · intro h
        exact absurd hstored (h.fresh ⟨orphan, hmem, horphan⟩)
  | rekey orphan hmem horphan hnew =>
      rw [resolveCode_rekey hschema.problems hmem horphan hnew] at hresolved
      cases hresolved
      obtain ⟨hcode, hid, -⟩ := isOrphanOf_eq_true.mp horphan
      have hother : orphanId e.code ≠ e.externalId := fun h => hnew ⟨orphan, hmem, hid.trans h⟩
      rw [mark_of_claimCode (claimCode_rekey hschema.problems hmem horphan hnew)
        (hfresh.rekeyProblem _ _) htaken]
      constructor
      · intro _
        refine ⟨fun _ => hnew, ?_, hother.symm⟩
        intro p hp hpid
        rw [hschema.problems.eq_of_id hp hmem (hpid.trans hid.symm)]
        exact horphan
      · intro _
        refine ⟨_, rfl, (claimsAgree_iff htaken).mpr ⟨not_stored_rekeyProblem hother, hother, ?_⟩⟩
        intro _
        apply accountingOf_rekeyProblem
        intro u hu huid
        exact hnew (huid ▸ hschema.usage u hu)
  | foreign owner hmem hcode hother hforeign =>
      rw [resolveCode_foreign hschema.problems hmem hcode hother hforeign] at hresolved
      cases hresolved

/-! The catalog knows problem 7, and a scan has found the folder `sums`. -/

def scannedUsage (externalId : String) (bytes : Int) : ProblemUsageRow where
  problemId := externalId
  logicalBytes := bytes
  allocatedBytes := bytes
  archiveBytes := 0
  auxiliaryBytes := bytes
  fileCount := 1
  localStatus := .present
  r2Status := .none
  snapshotGeneration := none
  orphanBytes := 0
  referencedBytes := 0
  observedAt := 0
  stale := false
  lastAccessedAt := none

def scannedDb : Database :=
  { problems := [orphanRow "sums"], problemUsage := [scannedUsage (orphanId "sums") 10] }

theorem catalog_claims_agree_new :
    ∃ upserted, upsertProblem 1 sampleEntry scannedDb = .ok upserted ∧
      ∃ marked, markProblemDirtyIdempotent 2 "k" "oj" "f" sampleEntry false scannedDb =
          .ok (marked, true) ∧ ClaimsAgree sampleEntry scannedDb upserted marked := by
  have hschema : SchemaOk scannedDb := ⟨⟨by decide, by decide⟩, by decide⟩
  have hfresh : FreshKey "k" scannedDb := by
    intro k hk
    cases hk
  exact ⟨_, rfl, (catalog_claims_agree hschema hfresh rfl).mpr
    ⟨by decide, by decide, by decide⟩⟩

/-- Problem 7 has been renamed from `max` to `sums`. -/
def renamedDb : Database :=
  { problems := [catalogRow 0 { sampleEntry with code := "max" } .present, orphanRow "sums"]
    problemUsage := [scannedUsage "7" 0, scannedUsage (orphanId "sums") 10] }

/-- The upsert merges the orphan; the notification runs into the primary key. -/
theorem renamed_problem_not_marked :
    SchemaOk renamedDb ∧ FreshKey "k" renamedDb ∧
      (∃ upserted, upsertProblem 1 sampleEntry renamedDb = .ok upserted ∧
        codeOwner "sums" upserted.problems = some "7" ∧
        accountingOf "7" upserted.problemUsage = some ⟨10, 10, 0, 10, 1, 0⟩) ∧
      markProblemDirtyIdempotent 2 "k" "oj" "f" sampleEntry false renamedDb =
        .error .duplicateKey := by
  refine ⟨⟨⟨by decide, by decide⟩, by decide⟩, ?_, ⟨_, rfl, by decide, by decide⟩, by rfl⟩
  intro k hk
  cases hk

end ExternalStorage.Catalog
