import ExternalStorage.Model.Catalog

/-!
# What a catalog write does to the problems

A catalog write settles who has its code: nobody else, or an orphan that a scan has
found, which it merges into its problem or rekeys.  Every row it does not address keeps
its id, its code and its state.
-/

namespace ExternalStorage.Catalog

open ExternalStorage.Model Library.Table

/-- The keys of the schema on `problems`. -/
structure UniqueProblems (problems : List ProblemRow) : Prop where
  ids : (problems.map ProblemRow.externalId).Nodup
  codes : (problems.map ProblemRow.code).Nodup

/-- The problem has a row. -/
def Stored (externalId : String) (problems : List ProblemRow) : Prop :=
  ∃ p ∈ problems, p.externalId = externalId

/-- The row is the orphan that a scan of the folder `code` has created. -/
def isOrphanOf (code : String) (p : ProblemRow) : Bool :=
  p.code = code && p.externalId = orphanId code && p.catalogState = .orphan

/-- The code is held by the orphan of its folder. -/
def OrphanHolds (code : String) (problems : List ProblemRow) : Prop :=
  ∃ p ∈ problems, isOrphanOf code p = true

instance (externalId : String) (problems : List ProblemRow) :
    Decidable (Stored externalId problems) :=
  inferInstanceAs (Decidable (∃ p ∈ problems, p.externalId = externalId))

instance (code : String) (problems : List ProblemRow) : Decidable (OrphanHolds code problems) :=
  inferInstanceAs (Decidable (∃ p ∈ problems, isOrphanOf code p = true))

theorem isOrphanOf_eq_true {code : String} {p : ProblemRow} :
    isOrphanOf code p = true ↔
      p.code = code ∧ p.externalId = orphanId code ∧ p.catalogState = .orphan := by
  simp [isOrphanOf, and_assoc]

theorem stored_updateWhere {p : ProblemRow → Bool} {f : ProblemRow → ProblemRow}
    (hid : ∀ q, (f q).externalId = q.externalId) (problems : List ProblemRow)
    (externalId : String) :
    Stored externalId (updateWhere p f problems) ↔ Stored externalId problems := by
  have hview : ∀ rows : List ProblemRow,
      Stored externalId rows ↔ externalId ∈ rows.map ProblemRow.externalId := by
    intro rows
    simp only [Stored, List.mem_map]
  rw [hview, hview, map_updateWhere hid]

namespace UniqueProblems

variable {problems : List ProblemRow} {p q : ProblemRow}

theorem eq_of_id (h : UniqueProblems problems) (hp : p ∈ problems) (hq : q ∈ problems)
    (hid : p.externalId = q.externalId) : p = q :=
  List.inj_on_of_nodup_map h.ids hp hq hid

theorem eq_of_code (h : UniqueProblems problems) (hp : p ∈ problems) (hq : q ∈ problems)
    (hcode : p.code = q.code) : p = q :=
  List.inj_on_of_nodup_map h.codes hp hq hcode

theorem find_code (h : UniqueProblems problems) (hp : p ∈ problems) :
    (problems.find? fun q => q.code = p.code) = some p := by
  cases hfound : problems.find? fun q => q.code = p.code with
  | none =>
      have hne := List.find?_eq_none.mp hfound p hp
      simp at hne
  | some q =>
      have hcode : q.code = p.code := by simpa using List.find?_some hfound
      rw [h.eq_of_code (List.mem_of_find?_eq_some hfound) hp hcode]

end UniqueProblems

/-! A problem of the catalog and the orphan of a folder. -/

def sampleEntry : CatalogEntry where
  externalId := "7"
  code := "sums"
  ownerOrganization := none
  isManuallyManaged := false
  mirrorOf := none
  mirrorRoot := none
  quotaBytes := none
  schemaVersion := 1

/-- The row a scan creates for a folder that the catalog does not list. -/
def orphanRow (code : String) : ProblemRow :=
  { catalogRow 0 { sampleEntry with externalId := orphanId code, code := code } .orphan with
    stale := true }

/-! ## Who has the code -/

inductive Finds (e : CatalogEntry) (problems : List ProblemRow) : Prop
  /-- No other row has the code. -/
  | free (own : ∀ p ∈ problems, p.code = e.code → p.externalId = e.externalId)
  /-- The orphan has it, and the problem has a row of its own. -/
  | merge (orphan : ProblemRow) (mem : orphan ∈ problems) (holds : isOrphanOf e.code orphan = true)
      (other : orphan.externalId ≠ e.externalId) (stored : Stored e.externalId problems)
  /-- The orphan has it, and the problem has no row. -/
  | rekey (orphan : ProblemRow) (mem : orphan ∈ problems) (holds : isOrphanOf e.code orphan = true)
      (fresh : ¬ Stored e.externalId problems)
  /-- Another problem has it. -/
  | foreign (owner : ProblemRow) (mem : owner ∈ problems) (code : owner.code = e.code)
      (other : owner.externalId ≠ e.externalId) (holds : isOrphanOf e.code owner = false)

theorem finds (e : CatalogEntry) (problems : List ProblemRow) : Finds e problems := by
  by_cases hother : ∃ p ∈ problems, p.code = e.code ∧ p.externalId ≠ e.externalId
  · obtain ⟨p, hp, hcode, hne⟩ := hother
    cases horphan : isOrphanOf e.code p with
    | false => exact .foreign p hp hcode hne horphan
    | true =>
        by_cases hstored : Stored e.externalId problems
        · exact .merge p hp horphan hne hstored
        · exact .rekey p hp horphan hstored
  · refine .free ?_
    intro p hp hcode
    by_contra hne
    exact hother ⟨p, hp, hcode, hne⟩

def merged (e : CatalogEntry) (db : Database) : Database :=
  withoutOrphan (orphanId e.code)
    { db with problemUsage := mergeUsage (orphanId e.code) e.externalId db.problemUsage }

section Resolve

variable {e : CatalogEntry} {db : Database}

theorem find_free (hown : ∀ p ∈ db.problems, p.code = e.code → p.externalId = e.externalId)
    {owner : ProblemRow} (hfound : (db.problems.find? fun p => p.code = e.code) = some owner) :
    owner.externalId = e.externalId := by
  have hcode : owner.code = e.code := by simpa using List.find?_some hfound
  exact hown owner (List.mem_of_find?_eq_some hfound) hcode

theorem resolveCode_free
    (hown : ∀ p ∈ db.problems, p.code = e.code → p.externalId = e.externalId) :
    resolveCode e db = .ok db := by
  unfold resolveCode
  cases hfound : db.problems.find? fun p => p.code = e.code with
  | none => rfl
  | some owner => simp [find_free hown hfound]

theorem claimCode_free
    (hown : ∀ p ∈ db.problems, p.code = e.code → p.externalId = e.externalId) :
    claimCode e db = .ok db := by
  unfold claimCode
  cases hfound : db.problems.find? fun p => p.code = e.code with
  | none => rfl
  | some owner => simp [find_free hown hfound]

theorem any_eq_stored (externalId : String) (problems : List ProblemRow) :
    (problems.any fun p => p.externalId = externalId) = decide (Stored externalId problems) := by
  rw [Bool.eq_iff_iff, List.any_eq_true, decide_eq_true_eq]
  simp only [decide_eq_true_eq, Stored]

theorem any_orphan {orphan : ProblemRow} {code : String} (hmem : orphan ∈ db.problems)
    (horphan : isOrphanOf code orphan = true) :
    (db.problems.any fun p => p.externalId = orphanId code && p.code = code &&
      p.catalogState = .orphan) = true := by
  obtain ⟨hcode, hid, hstate⟩ := isOrphanOf_eq_true.mp horphan
  exact List.any_eq_true.mpr ⟨orphan, hmem, by simp [hcode, hid, hstate]⟩

variable (hunique : UniqueProblems db.problems)
include hunique

theorem find_owner {owner : ProblemRow} (hmem : owner ∈ db.problems) (hcode : owner.code = e.code) :
    (db.problems.find? fun p => p.code = e.code) = some owner := by
  rw [← hcode]
  exact hunique.find_code hmem

theorem resolveCode_merge {orphan : ProblemRow} (hmem : orphan ∈ db.problems)
    (horphan : isOrphanOf e.code orphan = true) (hother : orphan.externalId ≠ e.externalId)
    (hstored : Stored e.externalId db.problems) :
    resolveCode e db =
      if hasHistory (orphanId e.code) db then .error (.orphanHistoryConflict e.code)
      else if referenced (orphanId e.code) db then .error .stillReferenced
      else .ok (merged e db) := by
  obtain ⟨hcode, hid, hstate⟩ := isOrphanOf_eq_true.mp horphan
  rw [hid] at hother
  unfold resolveCode
  rw [find_owner hunique hmem hcode]
  simp only [hother, if_false, hid, hstate, any_eq_stored, hstored, decide_true, if_true, merged,
    deleteOrphan]
  simp [referenced]

theorem resolveCode_merge_eq_ok {resolved : Database} {orphan : ProblemRow}
    (hmem : orphan ∈ db.problems) (horphan : isOrphanOf e.code orphan = true)
    (hother : orphan.externalId ≠ e.externalId) (hstored : Stored e.externalId db.problems) :
    resolveCode e db = .ok resolved ↔
      (hasHistory (orphanId e.code) db = false ∧ referenced (orphanId e.code) db = false) ∧
        merged e db = resolved := by
  rw [resolveCode_merge hunique hmem horphan hother hstored]
  cases hasHistory (orphanId e.code) db <;> cases referenced (orphanId e.code) db <;> simp

theorem claimCode_merge {orphan : ProblemRow} (hmem : orphan ∈ db.problems)
    (horphan : isOrphanOf e.code orphan = true) (hother : orphan.externalId ≠ e.externalId)
    (hstored : Stored e.externalId db.problems) : claimCode e db = .error .duplicateKey := by
  obtain ⟨hcode, hid, hstate⟩ := isOrphanOf_eq_true.mp horphan
  rw [hid] at hother
  unfold claimCode
  rw [find_owner hunique hmem hcode]
  simp only [hother, if_false, hid, hstate, claimOrphan, any_orphan hmem horphan, any_eq_stored,
    hstored, decide_true, if_true]
  simp

theorem resolveCode_rekey {orphan : ProblemRow} (hmem : orphan ∈ db.problems)
    (horphan : isOrphanOf e.code orphan = true) (hfresh : ¬ Stored e.externalId db.problems) :
    resolveCode e db = .ok (rekeyProblem (orphanId e.code) e.externalId db) := by
  obtain ⟨hcode, hid, hstate⟩ := isOrphanOf_eq_true.mp horphan
  have hother : orphanId e.code ≠ e.externalId := fun h => hfresh ⟨orphan, hmem, hid.trans h⟩
  unfold resolveCode
  rw [find_owner hunique hmem hcode]
  simp only [hother, if_false, hid, hstate, claimOrphan, any_orphan hmem horphan, any_eq_stored,
    hfresh, decide_false, if_true]
  simp

theorem claimCode_rekey {orphan : ProblemRow} (hmem : orphan ∈ db.problems)
    (horphan : isOrphanOf e.code orphan = true) (hfresh : ¬ Stored e.externalId db.problems) :
    claimCode e db = .ok (rekeyProblem (orphanId e.code) e.externalId db) := by
  obtain ⟨hcode, hid, hstate⟩ := isOrphanOf_eq_true.mp horphan
  have hother : orphanId e.code ≠ e.externalId := fun h => hfresh ⟨orphan, hmem, hid.trans h⟩
  unfold claimCode
  rw [find_owner hunique hmem hcode]
  simp only [hother, if_false, hid, hstate, claimOrphan, any_orphan hmem horphan, any_eq_stored,
    hfresh, decide_false, if_true]
  simp

omit hunique in
theorem not_orphan_of_foreign {owner : ProblemRow} (hcode : owner.code = e.code)
    (hforeign : isOrphanOf e.code owner = false) :
    owner.catalogState ≠ .orphan ∨ owner.externalId ≠ orphanId e.code := by
  simp only [isOrphanOf, hcode, decide_true, Bool.true_and, Bool.and_eq_false_iff,
    decide_eq_false_iff_not] at hforeign
  exact hforeign.symm

theorem resolveCode_foreign {owner : ProblemRow} (hmem : owner ∈ db.problems)
    (hcode : owner.code = e.code) (hother : owner.externalId ≠ e.externalId)
    (hforeign : isOrphanOf e.code owner = false) :
    resolveCode e db = .error (.codeConflict e.code owner.externalId) := by
  unfold resolveCode
  rw [find_owner hunique hmem hcode]
  simp [hother, not_orphan_of_foreign hcode hforeign]

theorem claimCode_foreign {owner : ProblemRow} (hmem : owner ∈ db.problems)
    (hcode : owner.code = e.code) (hother : owner.externalId ≠ e.externalId)
    (hforeign : isOrphanOf e.code owner = false) :
    claimCode e db = .error (.codeConflict e.code owner.externalId) := by
  unfold claimCode
  rw [find_owner hunique hmem hcode]
  simp [hother, not_orphan_of_foreign hcode hforeign]

end Resolve

/-! ## The rows after a write -/

def cataloged (now : Timestamp) (e : CatalogEntry) (problems : List ProblemRow) :
    List ProblemRow :=
  upsertOn ProblemRow.externalId (catalogRow now e .present)
    (ProblemRow.cataloged now e .present) problems

theorem upsertProblem_eq_ok {now : Timestamp} {e : CatalogEntry} {db db' : Database} :
    upsertProblem now e db = .ok db' ↔
      ∃ resolved, resolveCode e db = .ok resolved ∧ codeTaken e resolved.problems = false ∧
        { resolved with problems := cataloged now e resolved.problems } = db' := by
  unfold upsertProblem
  cases resolveCode e db with
  | error err => simp [bind, Except.bind]
  | ok resolved =>
      cases htaken : codeTaken e resolved.problems <;>
        simp [bind, Except.bind, pure, Except.pure, throw, throwThe, MonadExceptOf.throw, htaken,
          cataloged]

theorem codeTaken_eq_false {e : CatalogEntry} {problems : List ProblemRow} :
    codeTaken e problems = false ↔
      ∀ p ∈ problems, p.code = e.code → p.externalId = e.externalId := by
  simp [codeTaken]

def face (p : ProblemRow) : String × String × CatalogState :=
  (p.externalId, p.code, p.catalogState)

/-- The ids that are named before and after some ids `gone` may have been renamed into `fresh`. -/
structure Renames (gone fresh : List String) (before after : String → Bool) : Prop where
  kept : ∀ id, id ∉ gone → before id = true → after id = true
  old : ∀ id, id ∉ fresh → after id = true → before id = true

theorem Renames.refl (gone fresh : List String) (names : String → Bool) :
    Renames gone fresh names names :=
  ⟨fun _ _ h => h, fun _ _ h => h⟩

theorem Renames.trans {gone fresh gone' fresh' : List String} {first second third : String → Bool}
    (h : Renames gone fresh first second) (h' : Renames gone' fresh' second third) :
    Renames (gone ++ gone') (fresh ++ fresh') first third := by
  constructor
  · intro id hid hnamed
    obtain ⟨hgone, hgone'⟩ := not_or.mp (mt List.mem_append.mpr hid)
    exact h'.kept id hgone' (h.kept id hgone hnamed)
  · intro id hid hnamed
    obtain ⟨hfresh, hfresh'⟩ := not_or.mp (mt List.mem_append.mpr hid)
    exact h.old id hfresh (h'.old id hfresh' hnamed)

structure SameRow (gone fresh : List String) (q p : ProblemRow) : Prop where
  face : face q = face p
  mirrors : Renames gone fresh q.mirrors p.mirrors

theorem SameRow.refl (gone fresh : List String) (p : ProblemRow) : SameRow gone fresh p p :=
  ⟨rfl, .refl _ _ _⟩

theorem SameRow.trans {gone fresh gone' fresh' : List String} {p q r : ProblemRow}
    (h : SameRow gone fresh p q) (h' : SameRow gone' fresh' q r) :
    SameRow (gone ++ gone') (fresh ++ fresh') p r :=
  ⟨h.face.trans h'.face, h.mirrors.trans h'.mirrors⟩

abbrev SameBut (e : CatalogEntry) (q p : ProblemRow) : Prop :=
  SameRow [orphanId e.code] [e.externalId] q p

structure Resolved (e : CatalogEntry) (before after : List ProblemRow) : Prop where
  unique : UniqueProblems after
  own : ∀ p ∈ after, p.code = e.code → p.externalId = e.externalId
  others : ∀ p ∈ after, p.externalId ≠ e.externalId → ∃ q ∈ before, SameBut e q p
  kept : ∀ q ∈ before, q.externalId ≠ e.externalId → q.code ≠ e.code →
    ∃ p ∈ after, SameBut e q p

theorem resolved_free {e : CatalogEntry} {problems : List ProblemRow}
    (hunique : UniqueProblems problems)
    (hown : ∀ p ∈ problems, p.code = e.code → p.externalId = e.externalId) :
    Resolved e problems problems :=
  ⟨hunique, hown, fun p hp _ => ⟨p, hp, .refl _ _ p⟩, fun q hq _ _ => ⟨q, hq, .refl _ _ q⟩⟩

theorem resolved_merge {e : CatalogEntry} {db : Database} {orphan : ProblemRow}
    (hunique : UniqueProblems db.problems) (hmem : orphan ∈ db.problems)
    (horphan : isOrphanOf e.code orphan = true) :
    Resolved e db.problems (merged e db).problems := by
  obtain ⟨hcode, hid, hstate⟩ := isOrphanOf_eq_true.mp horphan
  have hrest : ∀ p, p ∈ (merged e db).problems ↔ p ∈ db.problems ∧ p ≠ orphan := by
    intro p
    simp only [merged, withoutOrphan, mem_deleteWhere]
    refine and_congr_right ?_
    intro hp
    constructor
    · rintro hkeep rfl
      simp [hid, hstate] at hkeep
    · intro hne
      have hpid : p.externalId ≠ orphanId e.code :=
        fun h => hne (hunique.eq_of_id hp hmem (h.trans hid.symm))
      simp [hpid]
  have hsub : (merged e db).problems.Sublist db.problems := List.filter_sublist
  refine ⟨⟨hunique.ids.sublist (hsub.map _), hunique.codes.sublist (hsub.map _)⟩, ?_, ?_, ?_⟩
  · intro p hp hpcode
    obtain ⟨hp, hne⟩ := (hrest p).mp hp
    exact absurd (hunique.eq_of_code hp hmem (hpcode.trans hcode.symm)) hne
  · intro p hp _
    exact ⟨p, ((hrest p).mp hp).1, .refl _ _ p⟩
  · intro q hq _ hqcode
    refine ⟨q, (hrest q).mpr ⟨hq, ?_⟩, .refl _ _ q⟩
    rintro rfl
    exact hqcode hcode

theorem renamed_of_ne {old new id : String} (h : id ≠ old) : renamed old new id = id :=
  if_neg h

theorem renamed_self (old new : String) : renamed old new old = new :=
  if_pos rfl

theorem eq_of_renamed {old new id externalId : String} (h : renamed old new id = externalId)
    (hother : externalId ≠ new) : id = externalId := by
  unfold renamed at h
  split at h
  · exact absurd h.symm hother
  · exact h

theorem eq_some_of_renamed {old new externalId : String} {id : Option String}
    (h : id.map (renamed old new) = some externalId) (hother : externalId ≠ new) :
    id = some externalId := by
  obtain ⟨id, rfl, hid⟩ := Option.map_eq_some_iff.mp h
  rw [eq_of_renamed hid hother]

theorem renamed_eq_some {old new externalId : String} {id : Option String}
    (h : id = some externalId) (hother : externalId ≠ old) :
    id.map (renamed old new) = some externalId := by
  rw [h, Option.map_some, renamed_of_ne hother]

theorem renames_mirrors (old new : String) (q : ProblemRow) (externalId : String) :
    Renames [old] [new] q.mirrors ({ q with
      externalId := externalId
      mirrorOf := q.mirrorOf.map (renamed old new)
      mirrorRoot := q.mirrorRoot.map (renamed old new) } : ProblemRow).mirrors := by
  constructor <;> intro id hid hnamed <;>
    simp only [List.mem_singleton, ProblemRow.mirrors, Bool.or_eq_true, decide_eq_true_eq]
      at hid hnamed ⊢
  · exact hnamed.imp (fun h => renamed_eq_some h hid) fun h => renamed_eq_some h hid
  · exact hnamed.imp (fun h => eq_some_of_renamed h hid) fun h => eq_some_of_renamed h hid

theorem resolved_rekey {e : CatalogEntry} {db : Database} {orphan : ProblemRow}
    (hunique : UniqueProblems db.problems) (hmem : orphan ∈ db.problems)
    (horphan : isOrphanOf e.code orphan = true) (hfresh : ¬ Stored e.externalId db.problems) :
    Resolved e db.problems (rekeyProblem (orphanId e.code) e.externalId db).problems := by
  obtain ⟨hcode, hid, -⟩ := isOrphanOf_eq_true.mp horphan
  have hids : (rekeyProblem (orphanId e.code) e.externalId db).problems.map
      ProblemRow.externalId =
        (db.problems.map ProblemRow.externalId).map (renamed (orphanId e.code) e.externalId) := by
    simp [rekeyProblem]
  have hcodes : (rekeyProblem (orphanId e.code) e.externalId db).problems.map ProblemRow.code =
      db.problems.map ProblemRow.code := by
    simp [rekeyProblem]
  have hinj : ∀ a ∈ db.problems.map ProblemRow.externalId,
      ∀ b ∈ db.problems.map ProblemRow.externalId,
        renamed (orphanId e.code) e.externalId a = renamed (orphanId e.code) e.externalId b →
          a = b := by
    have hnew : ∀ a ∈ db.problems.map ProblemRow.externalId, a ≠ e.externalId := by
      intro a ha
      obtain ⟨p, hp, rfl⟩ := List.mem_map.mp ha
      exact fun h => hfresh ⟨p, hp, h⟩
    intro a ha b hb hab
    by_cases hao : a = orphanId e.code <;> by_cases hbo : b = orphanId e.code
    · exact hao.trans hbo.symm
    · rw [hao, renamed_self, renamed_of_ne hbo] at hab
      exact absurd hab.symm (hnew b hb)
    · rw [hbo, renamed_self, renamed_of_ne hao] at hab
      exact absurd hab (hnew a ha)
    · rwa [renamed_of_ne hao, renamed_of_ne hbo] at hab
  refine ⟨⟨?_, ?_⟩, ?_, ?_, ?_⟩
  · rw [hids]
    exact List.Nodup.map_on hinj hunique.ids
  · rw [hcodes]
    exact hunique.codes
  · intro p hp hpcode
    obtain ⟨q, hq, rfl⟩ := List.mem_map.mp hp
    rw [hunique.eq_of_code hq hmem (hpcode.trans hcode.symm)]
    show renamed (orphanId e.code) e.externalId orphan.externalId = e.externalId
    rw [hid, renamed_self]
  · intro p hp hother
    obtain ⟨q, hq, rfl⟩ := List.mem_map.mp hp
    have hqid : q.externalId ≠ orphanId e.code := by
      intro h
      apply hother
      show renamed (orphanId e.code) e.externalId q.externalId = e.externalId
      rw [h, renamed_self]
    refine ⟨q, hq, ?_, renames_mirrors _ _ q _⟩
    simp only [face, renamed_of_ne hqid]
  · intro q hq _ hqcode
    have hqid : q.externalId ≠ orphanId e.code := by
      intro h
      apply hqcode
      rw [hunique.eq_of_id hq hmem (h.trans hid.symm), hcode]
    refine ⟨_, List.mem_map_of_mem hq, ?_, renames_mirrors _ _ q _⟩
    simp only [face, renamed_of_ne hqid]

/-! ## The write as a whole -/

/-- The code is free, the problem's own or an orphan's that can be taken over. -/
def Claimable (e : CatalogEntry) (db : Database) : Prop :=
  ∀ p ∈ db.problems, p.code = e.code → p.externalId = e.externalId ∨
    isOrphanOf e.code p = true ∧
      (Stored e.externalId db.problems →
        hasHistory (orphanId e.code) db = false ∧ referenced (orphanId e.code) db = false)

structure Upserted (e : CatalogEntry) (before after : List ProblemRow) : Prop where
  unique : UniqueProblems after
  own : ∃ p ∈ after, face p = (e.externalId, e.code, .present) ∧
    p.mirrorOf = e.mirrorOf ∧ p.mirrorRoot = e.mirrorRoot
  others : ∀ p ∈ after, p.externalId ≠ e.externalId →
    p.code ≠ e.code ∧ ∃ q ∈ before, SameBut e q p
  kept : ∀ q ∈ before, q.externalId ≠ e.externalId → q.code ≠ e.code →
    ∃ p ∈ after, SameBut e q p

theorem Resolved.upserted {e : CatalogEntry} {before after : List ProblemRow}
    (h : Resolved e before after) (now : Timestamp) :
    Upserted e before (cataloged now e after) := by
  have hcodeOther : ∀ p ∈ after, p.externalId ≠ e.externalId → p.code ≠ e.code :=
    fun p hp hne hcode => hne (h.own p hp hcode)
  refine ⟨⟨?_, ?_⟩, ?_, ?_, ?_⟩
  · refine nodup_map_upsertOn h.unique.ids h.unique.ids ?_ ?_
    · exact fun p hkey => hkey
    · exact fun p _ hkey => hkey
  · refine nodup_map_upsertOn h.unique.ids h.unique.codes ?_ hcodeOther
    exact fun p _ => rfl
  · by_cases hfree : ∀ p ∈ after, p.externalId ≠ e.externalId
    · exact ⟨_, mem_upsertOn.mpr (.inr (.inr ⟨rfl, hfree⟩)), rfl, rfl, rfl⟩
    · simp only [not_forall, not_not] at hfree
      obtain ⟨p, hp, hkey⟩ := hfree
      refine ⟨_, mem_upsertOn.mpr (.inr (.inl ⟨p, hp, hkey, rfl⟩)), ?_, rfl, rfl⟩
      simp only [face, ProblemRow.cataloged, hkey]
  · intro p hp hother
    rcases mem_upsertOn.mp hp with ⟨hp, -⟩ | ⟨p₀, -, hkey, rfl⟩ | ⟨rfl, -⟩
    · exact ⟨hcodeOther p hp hother, h.others p hp hother⟩
    · exact absurd hkey hother
    · exact absurd rfl hother
  · intro q hq hid hcode
    obtain ⟨p, hp, hsame⟩ := h.kept q hq hid hcode
    have hpid : q.externalId = p.externalId := congrArg Prod.fst hsame.face
    exact ⟨p, mem_upsertOn.mpr (.inl ⟨hp, fun hkey => hid (hpid.trans hkey)⟩), hsame⟩

section Write

variable {now : Timestamp} {e : CatalogEntry} {db db' : Database}

/-- The write settles its code exactly when the code can be claimed. -/
theorem resolveCode_eq_ok_iff (hunique : UniqueProblems db.problems) :
    (∃ resolved, resolveCode e db = .ok resolved) ↔ Claimable e db := by
  cases finds e db.problems with
  | free hown =>
      rw [resolveCode_free hown]
      exact ⟨fun _ p hp hcode => .inl (hown p hp hcode), fun _ => ⟨db, rfl⟩⟩
  | merge orphan hmem horphan hother hstored =>
      simp only [resolveCode_merge_eq_ok hunique hmem horphan hother hstored]
      obtain ⟨hcode, -, -⟩ := isOrphanOf_eq_true.mp horphan
      constructor
      · rintro ⟨resolved, hfree, -⟩ p hp hpcode
        right
        rw [hunique.eq_of_code hp hmem (hpcode.trans hcode.symm)]
        exact ⟨horphan, fun _ => hfree⟩
      · intro h
        rcases h orphan hmem hcode with hid | ⟨-, hfree⟩
        · exact absurd hid hother
        · exact ⟨merged e db, hfree hstored, rfl⟩
  | rekey orphan hmem horphan hfresh =>
      rw [resolveCode_rekey hunique hmem horphan hfresh]
      obtain ⟨hcode, -, -⟩ := isOrphanOf_eq_true.mp horphan
      refine ⟨fun _ p hp hpcode => .inr ?_, fun _ => ⟨_, rfl⟩⟩
      rw [hunique.eq_of_code hp hmem (hpcode.trans hcode.symm)]
      exact ⟨horphan, fun h => absurd h hfresh⟩
  | foreign owner hmem hcode hother hforeign =>
      rw [resolveCode_foreign hunique hmem hcode hother hforeign]
      constructor
      · rintro ⟨resolved, hresolved⟩
        cases hresolved
      · intro h
        rcases h owner hmem hcode with hid | ⟨horphan, -⟩
        · exact absurd hid hother
        · exact absurd horphan (by simp [hforeign])

theorem resolved_of_resolveCode (hunique : UniqueProblems db.problems) {resolved : Database}
    (h : resolveCode e db = .ok resolved) : Resolved e db.problems resolved.problems := by
  cases finds e db.problems with
  | free hown =>
      rw [resolveCode_free hown] at h
      cases h
      exact resolved_free hunique hown
  | merge orphan hmem horphan hother hstored =>
      obtain ⟨-, rfl⟩ := (resolveCode_merge_eq_ok hunique hmem horphan hother hstored).mp h
      exact resolved_merge hunique hmem horphan
  | rekey orphan hmem horphan hfresh =>
      rw [resolveCode_rekey hunique hmem horphan hfresh] at h
      cases h
      exact resolved_rekey hunique hmem horphan hfresh
  | foreign owner hmem hcode hother hforeign =>
      rw [resolveCode_foreign hunique hmem hcode hother hforeign] at h
      cases h

theorem upsertProblem_total (hunique : UniqueProblems db.problems) :
    (∃ db', upsertProblem now e db = .ok db') ↔ Claimable e db := by
  rw [← resolveCode_eq_ok_iff hunique]
  constructor
  · rintro ⟨db', h⟩
    obtain ⟨resolved, hresolved, -⟩ := upsertProblem_eq_ok.mp h
    exact ⟨resolved, hresolved⟩
  · rintro ⟨resolved, hresolved⟩
    have hown := (resolved_of_resolveCode hunique hresolved).own
    exact ⟨_, upsertProblem_eq_ok.mpr ⟨resolved, hresolved, codeTaken_eq_false.mpr hown, rfl⟩⟩

theorem upsertProblem_upserted (hunique : UniqueProblems db.problems)
    (h : upsertProblem now e db = .ok db') : Upserted e db.problems db'.problems := by
  obtain ⟨resolved, hresolved, -, rfl⟩ := upsertProblem_eq_ok.mp h
  exact (resolved_of_resolveCode hunique hresolved).upserted now

end Write

/-! ## History -/

theorem hasHistory_rekeyProblem {old new externalId : String} {db : Database}
    (hother : externalId ≠ new) (h : hasHistory externalId (rekeyProblem old new db) = true) :
    hasHistory externalId db = true := by
  simp only [hasHistory, rekeyProblem, List.any_map, Bool.or_eq_true, List.any_eq_true,
    Function.comp_apply, decide_eq_true_eq] at h ⊢
  rcases h with ⟨s, hs, hid⟩ | ⟨j, hj, hid⟩
  · exact .inl ⟨s, hs, eq_of_renamed hid hother⟩
  · obtain ⟨id, hjid, hid⟩ := Option.map_eq_some_iff.mp hid
    rw [eq_of_renamed hid hother] at hjid
    exact .inr ⟨j, hj, hjid⟩

theorem hasHistory_upsertProblem {now : Timestamp} {e : CatalogEntry} {db db' : Database}
    (hunique : UniqueProblems db.problems) (h : upsertProblem now e db = .ok db')
    {externalId : String} (hother : externalId ≠ e.externalId)
    (hhistory : hasHistory externalId db' = true) : hasHistory externalId db = true := by
  obtain ⟨resolved, hresolved, -, rfl⟩ := upsertProblem_eq_ok.mp h
  have hhistory : hasHistory externalId resolved = true := hhistory
  cases finds e db.problems with
  | free hown =>
      rw [resolveCode_free hown] at hresolved
      cases hresolved
      exact hhistory
  | merge orphan hmem horphan hne hstored =>
      obtain ⟨-, rfl⟩ := (resolveCode_merge_eq_ok hunique hmem horphan hne hstored).mp hresolved
      exact hhistory
  | rekey orphan hmem horphan hfresh =>
      rw [resolveCode_rekey hunique hmem horphan hfresh] at hresolved
      cases hresolved
      exact hasHistory_rekeyProblem hother hhistory
  | foreign owner hmem hcode hne hforeign =>
      rw [resolveCode_foreign hunique hmem hcode hne hforeign] at hresolved
      cases hresolved

theorem keyed_upsertProblem {now : Timestamp} {e : CatalogEntry} {db db' : Database}
    (hunique : UniqueProblems db.problems) (h : upsertProblem now e db = .ok db') :
    Renames [orphanId e.code] [e.externalId] (keyed db.idempotencyKeys)
      (keyed db'.idempotencyKeys) := by
  obtain ⟨resolved, hresolved, -, rfl⟩ := upsertProblem_eq_ok.mp h
  show Renames _ _ _ (keyed resolved.idempotencyKeys)
  cases finds e db.problems with
  | free hown =>
      rw [resolveCode_free hown] at hresolved
      cases hresolved
      exact .refl _ _ _
  | merge orphan hmem horphan hne hstored =>
      obtain ⟨-, rfl⟩ := (resolveCode_merge_eq_ok hunique hmem horphan hne hstored).mp hresolved
      exact .refl _ _ _
  | rekey orphan hmem horphan hfresh =>
      rw [resolveCode_rekey hunique hmem horphan hfresh] at hresolved
      cases hresolved
      constructor <;> intro id hid hkeyed <;>
        simp only [List.mem_singleton, rekeyProblem, keyed, List.any_map, List.any_eq_true,
          Function.comp_apply, decide_eq_true_eq] at hid hkeyed ⊢
      · exact hkeyed.imp fun k h => ⟨h.1, renamed_eq_some h.2 hid⟩
      · exact hkeyed.imp fun k h => ⟨h.1, eq_some_of_renamed h.2 hid⟩
  | foreign owner hmem hcode hne hforeign =>
      rw [resolveCode_foreign hunique hmem hcode hne hforeign] at hresolved
      cases hresolved

end ExternalStorage.Catalog
