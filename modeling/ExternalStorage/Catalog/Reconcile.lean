import ExternalStorage.Catalog.MirrorOrder

/-!
# A reconcile converges when its codes come free in turn

A reconcile upserts the listed problems one at a time, each mirror after the problem it
mirrors.  A code that a listed problem gives up is free from that problem's turn on, so a
swap of two codes stops the loop.
-/

namespace ExternalStorage.Catalog

open ExternalStorage.Model Library.Table Library.Loops

/-! ## The list -/

/-- The keys of the catalog. -/
structure UniqueEntries (entries : List CatalogEntry) : Prop where
  ids : (entries.map CatalogEntry.externalId).Nodup
  codes : (entries.map CatalogEntry.code).Nodup

/-- `externalId` is where some number of `mirror_of` references leads from an entry. -/
inductive MirrorChain (entries : List CatalogEntry) : CatalogEntry → String → Prop
  | self (e : CatalogEntry) : MirrorChain entries e e.externalId
  | step {e m : CatalogEntry} {externalId : String} (mirrors : e.mirrorOf = some m.externalId)
      (listed : m ∈ entries) (rest : MirrorChain entries m externalId) :
      MirrorChain entries e externalId

/-- The mirror references resolve within the list: `mirror_of` names a listed problem, its
chains come to an end, and `mirror_root` is on the chain. -/
structure MirrorsResolve (entries : List CatalogEntry) : Prop where
  listed : ∀ e ∈ entries, ∀ id, e.mirrorOf = some id → ∃ m ∈ entries, m.externalId = id
  ends : ∃ rank : String → Nat, ∀ e ∈ entries, ∀ id, e.mirrorOf = some id →
    rank id < rank e.externalId
  root : ∀ e ∈ entries, ∀ id, e.mirrorRoot = some id → MirrorChain entries e id

theorem UniqueEntries.eq_of_id {entries : List CatalogEntry} (h : UniqueEntries entries)
    {e m : CatalogEntry} (he : e ∈ entries) (hm : m ∈ entries)
    (hid : e.externalId = m.externalId) : e = m :=
  List.inj_on_of_nodup_map h.ids he hm hid

/-! ## The order of `emit` -/

def MirrorsAfter (ordered : List CatalogEntry) : Prop :=
  ∀ done e todo, ordered = done ++ e :: todo → ∀ id, e.mirrorOf = some id → id ∈ listedIds done

structure Emission (entries ordered : List CatalogEntry) : Prop where
  ids : (listedIds ordered).Nodup
  listed : ∀ e ∈ ordered, e ∈ entries
  mirrors : MirrorsAfter ordered

variable {entries : List CatalogEntry}

/-- Where the references resolve, none leads back to its problem. -/
theorem MirrorsResolve.not_onCycle (hmirrors : MirrorsResolve entries) (id : String) :
    ¬ OnCycle entries id := by
  obtain ⟨rank, hrank⟩ := hmirrors.ends
  have hbelow : ∀ {a b}, Relation.TransGen (MirrorsListed entries) a b → rank b < rank a := by
    intro a b h
    induction h with
    | single href =>
        obtain ⟨-, e, he, rfl, hof⟩ := href
        exact hrank e he _ hof
    | tail _ href ih =>
        obtain ⟨-, e, he, rfl, hof⟩ := href
        exact Nat.lt_trans (hrank e he _ hof) ih
  exact fun hcycle => Nat.lt_irrefl _ (hbelow hcycle)

theorem reconcileOrder_emission (hmirrors : MirrorsResolve entries) :
    Emission entries (reconcileOrder entries) := by
  have hordering := reconcileOrder_ordering entries
  refine ⟨hordering.ids, hordering.listed, ?_⟩
  intro done e todo hsplit id hof
  have he : e ∈ entries := hordering.listed e (hsplit ▸ List.mem_append_right _ List.mem_cons_self)
  obtain ⟨m, hm, rfl⟩ := hmirrors.listed e he id hof
  exact hordering.behind done e todo hsplit (hmirrors.not_onCycle e.externalId) _ hof
    (List.mem_map_of_mem hm)

theorem mem_reconcileOrder (hunique : UniqueEntries entries) {e : CatalogEntry} :
    e ∈ reconcileOrder entries ↔ e ∈ entries :=
  (reconcileOrder_perm hunique.ids).mem_iff

theorem reconcileOrder_unique (hmirrors : MirrorsResolve entries)
    (hunique : UniqueEntries entries) : UniqueEntries (reconcileOrder entries) := by
  have hemission := reconcileOrder_emission hmirrors
  refine ⟨hemission.ids, List.Nodup.map_on ?_ (List.Nodup.of_map _ hemission.ids)⟩
  intro e he m hm hcode
  exact List.inj_on_of_nodup_map hunique.codes (hemission.listed e he) (hemission.listed m hm) hcode

theorem MirrorChain.behind {order : List CatalogEntry} (hmirrors : MirrorsAfter order)
    (hunique : UniqueEntries entries) (hlisted : ∀ e ∈ order, e ∈ entries) {e : CatalogEntry}
    {id : String} (h : MirrorChain entries e id) {done todo : List CatalogEntry}
    (hsplit : order = done ++ e :: todo) : id = e.externalId ∨ id ∈ listedIds done := by
  induction h generalizing done todo with
  | self e => exact .inl rfl
  | @step e m id hof hm rest ih =>
      obtain ⟨m', hm', hid⟩ := List.mem_map.mp (hmirrors done e todo hsplit m.externalId hof)
      have hm'order : m' ∈ order := by
        rw [hsplit]
        exact List.mem_append_left _ hm'
      have hmm : m' = m := hunique.eq_of_id (hlisted m' hm'order) hm hid
      subst hmm
      obtain ⟨front, back, hdone⟩ := List.append_of_mem hm'
      have hback : order = front ++ m' :: (back ++ e :: todo) := by
        rw [hsplit, hdone, List.append_assoc, List.cons_append]
      right
      rw [hdone, listedIds_append]
      rcases ih hback with rfl | hfront
      · exact List.mem_append_right _ (List.mem_map_of_mem List.mem_cons_self)
      · exact List.mem_append_left _ hfront

/-! ## The loop of upserts -/

def listedCodes (entries : List CatalogEntry) : List String := entries.map CatalogEntry.code

def listedOrphans (entries : List CatalogEntry) : List String :=
  entries.map fun e => orphanId e.code

/-- The rows that upserts of `done` leave alone. -/
def untouched (done : List CatalogEntry) (problems : List ProblemRow) : List ProblemRow :=
  problems.filter fun q =>
    !(listedIds done).contains q.externalId && !(listedCodes done).contains q.code

theorem mem_untouched {done : List CatalogEntry} {problems : List ProblemRow} {q : ProblemRow} :
    q ∈ untouched done problems ↔
      q ∈ problems ∧ q.externalId ∉ listedIds done ∧ q.code ∉ listedCodes done := by
  simp [untouched]

/-- `done` has been upserted: its rows are in place, with references to its own problems, and the
others are the initial ones whose code nobody in `done` has. -/
structure Progress (db : Database) (done : List CatalogEntry) (s : Database) : Prop where
  unique : UniqueProblems s.problems
  own : ∀ m ∈ done, ∃ p ∈ s.problems, face p = (m.externalId, m.code, .present)
  mirrors : ∀ p ∈ s.problems, p.externalId ∈ listedIds done →
    ∀ id, p.mirrors id = true → id ∈ listedIds done
  others : ∀ p ∈ s.problems, p.externalId ∉ listedIds done →
    p.code ∉ listedCodes done ∧
      ∃ q ∈ db.problems, SameRow (listedOrphans done) (listedIds done) q p
  kept : ∀ q ∈ db.problems, q.externalId ∉ listedIds done → q.code ∉ listedCodes done →
    ∃ p ∈ s.problems, SameRow (listedOrphans done) (listedIds done) q p
  keys : Renames (listedOrphans done) (listedIds done) (keyed db.idempotencyKeys)
    (keyed s.idempotencyKeys)
  history : ∀ id, id ∉ listedIds done → hasHistory id s = true → hasHistory id db = true

theorem progress_nil {db : Database} (hunique : UniqueProblems db.problems) :
    Progress db [] db :=
  ⟨hunique, by simp, by simp [listedIds],
    fun p hp _ => ⟨by simp [listedCodes], p, hp, .refl _ _ p⟩,
    fun q hq _ _ => ⟨q, hq, .refl _ _ q⟩, .refl _ _ _, fun _ _ h => h⟩

theorem face_externalId {p q : ProblemRow} (h : face p = face q) : p.externalId = q.externalId :=
  congrArg Prod.fst h

theorem face_code {p q : ProblemRow} (h : face p = face q) : p.code = q.code :=
  congrArg (fun f => f.2.1) h

theorem face_catalogState {p q : ProblemRow} (h : face p = face q) :
    p.catalogState = q.catalogState :=
  congrArg (fun f => f.2.2) h

theorem isOrphanOf_face {p q : ProblemRow} (h : face p = face q) (code : String) :
    isOrphanOf code p = isOrphanOf code q := by
  unfold isOrphanOf
  rw [face_externalId h, face_code h, face_catalogState h]

section Loop

variable {now : Timestamp} {db s t : Database} {done : List CatalogEntry} {e : CatalogEntry}

def ReferencesBehind (done : List CatalogEntry) (e : CatalogEntry) : Prop :=
  ∀ id, e.mirrorOf = some id ∨ e.mirrorRoot = some id →
    id = e.externalId ∨ id ∈ listedIds done

theorem Progress.mirrors_step (h : Progress db done s) (hbehind : ReferencesBehind done e)
    (hupserted : Upserted e s.problems t.problems) :
    ∀ p ∈ t.problems, p.externalId ∈ listedIds (done ++ [e]) →
      ∀ id, p.mirrors id = true → id ∈ listedIds (done ++ [e]) := by
  intro p hp hpid id hnamed
  rw [listedIds_append, List.mem_append] at hpid ⊢
  by_cases hown : p.externalId = e.externalId
  · obtain ⟨p', hp', hface, hof, hroot⟩ := hupserted.own
    obtain rfl : p = p' :=
      hupserted.unique.eq_of_id hp hp' (hown.trans (congrArg Prod.fst hface).symm)
    simp only [ProblemRow.mirrors, hof, hroot, Bool.or_eq_true, decide_eq_true_eq] at hnamed
    exact (hbehind id hnamed).symm.imp_right List.mem_singleton.mpr
  · obtain ⟨-, q, hq, hsame⟩ := hupserted.others p hp hown
    have hqid : q.externalId ∈ listedIds done := by
      rw [show q.externalId = p.externalId from congrArg Prod.fst hsame.face]
      exact hpid.resolve_right fun hmem => hown (List.mem_singleton.mp hmem)
    by_cases hfresh : id ∈ [e.externalId]
    · exact .inr hfresh
    · exact .inl (h.mirrors q hq hqid id (hsame.mirrors.old id hfresh hnamed))

theorem Progress.step (h : Progress db done s) (hid : e.externalId ∉ listedIds done)
    (hcode : e.code ∉ listedCodes done) (hbehind : ReferencesBehind done e)
    (hup : upsertProblem now e s = .ok t) : Progress db (done ++ [e]) t := by
  have hupserted := upsertProblem_upserted h.unique hup
  have hids : ∀ id, id ∉ listedIds (done ++ [e]) ↔ id ∉ listedIds done ∧ id ≠ e.externalId := by
    intro id
    simp [listedIds]
  have hcodes : ∀ code, code ∉ listedCodes (done ++ [e]) ↔
      code ∉ listedCodes done ∧ code ≠ e.code := by
    intro code
    simp [listedCodes]
  have horphans : listedOrphans (done ++ [e]) = listedOrphans done ++ [orphanId e.code] :=
    List.map_append
  have hlisted : listedIds (done ++ [e]) = listedIds done ++ [e.externalId] := List.map_append
  refine ⟨hupserted.unique, ?_, h.mirrors_step hbehind hupserted, ?_, ?_, ?_, ?_⟩
  · intro m hm
    rcases List.mem_append.mp hm with hm | hm
    · obtain ⟨p, hp, hface⟩ := h.own m hm
      have hpid : p.externalId = m.externalId := congrArg Prod.fst hface
      have hpcode : p.code = m.code := congrArg (fun f => f.2.1) hface
      have hne : p.externalId ≠ e.externalId := by
        intro heq
        exact hid (heq ▸ hpid ▸ List.mem_map_of_mem hm)
      have hcne : p.code ≠ e.code := by
        intro heq
        exact hcode (heq ▸ hpcode ▸ List.mem_map_of_mem hm)
      obtain ⟨p', hp', hsame⟩ := hupserted.kept p hp hne hcne
      exact ⟨p', hp', hsame.face.symm.trans hface⟩
    · rw [List.mem_singleton.mp hm]
      obtain ⟨p, hp, hface, -⟩ := hupserted.own
      exact ⟨p, hp, hface⟩
  · intro p hp hpid
    obtain ⟨hpdone, hpe⟩ := (hids _).mp hpid
    obtain ⟨hpcode, q, hq, hsame⟩ := hupserted.others p hp hpe
    rw [← face_externalId hsame.face] at hpdone
    obtain ⟨hqcode, q₀, hq₀, hsame₀⟩ := h.others q hq hpdone
    rw [face_code hsame.face] at hqcode
    rw [horphans, hlisted]
    exact ⟨(hcodes _).mpr ⟨hqcode, hpcode⟩, q₀, hq₀, hsame₀.trans hsame⟩
  · intro q hq hqid hqcode
    obtain ⟨hqdone, hqe⟩ := (hids _).mp hqid
    obtain ⟨hqcodes, hqecode⟩ := (hcodes _).mp hqcode
    obtain ⟨p, hp, hsame⟩ := h.kept q hq hqdone hqcodes
    rw [face_externalId hsame.face] at hqe
    rw [face_code hsame.face] at hqecode
    obtain ⟨p', hp', hsame'⟩ := hupserted.kept p hp hqe hqecode
    rw [horphans, hlisted]
    exact ⟨p', hp', hsame.trans hsame'⟩
  · rw [horphans, hlisted]
    exact h.keys.trans (keyed_upsertProblem h.unique hup)
  · intro id hidnot hhistory
    obtain ⟨hidone, hide⟩ := (hids _).mp hidnot
    exact h.history id hidone (hasHistory_upsertProblem h.unique hup hide hhistory)

theorem Progress.stored_iff (h : Progress db done s) {id : String} (hid : id ∉ listedIds done) :
    Stored id s.problems ↔ Stored id (untouched done db.problems) := by
  constructor
  · rintro ⟨p, hp, rfl⟩
    obtain ⟨hcode, q, hq, hsame⟩ := h.others p hp hid
    rw [← face_externalId hsame.face] at hid ⊢
    rw [← face_code hsame.face] at hcode
    exact ⟨q, mem_untouched.mpr ⟨hq, hid, hcode⟩, rfl⟩
  · rintro ⟨q, hq, rfl⟩
    obtain ⟨hq, -, hcode⟩ := mem_untouched.mp hq
    obtain ⟨p, hp, hsame⟩ := h.kept q hq hid hcode
    exact ⟨p, hp, (face_externalId hsame.face).symm⟩

theorem Progress.listed_code (h : Progress db done s) {p : ProblemRow} (hp : p ∈ s.problems)
    (hlisted : p.externalId ∈ listedIds done) : p.code ∈ listedCodes done := by
  obtain ⟨m, hm, hid⟩ := List.mem_map.mp hlisted
  obtain ⟨p', hp', hface⟩ := h.own m hm
  have hpid : p'.externalId = m.externalId := congrArg Prod.fst hface
  obtain rfl : p' = p := h.unique.eq_of_id hp' hp (hpid.trans hid)
  have hcode : p'.code = m.code := congrArg (fun f => f.2.1) hface
  exact hcode ▸ List.mem_map_of_mem hm

theorem orphanId_notMem {code : String} (hcode : code ∉ listedCodes done) :
    orphanId code ∉ listedOrphans done := by
  intro hmem
  obtain ⟨m, hm, horphan⟩ := List.mem_map.mp hmem
  exact hcode (orphanId_inj horphan ▸ List.mem_map_of_mem hm)

/-- What names an orphan whose turn has not come: rows that have not been touched, or keys. -/
theorem Progress.referenced_iff (h : Progress db done s) {code : String}
    (hid : orphanId code ∉ listedIds done) (hcode : code ∉ listedCodes done) :
    referenced (orphanId code) s = true ↔
      referenced (orphanId code) { db with problems := untouched done db.problems } = true := by
  have horphan := orphanId_notMem hcode
  simp only [referenced, Bool.or_eq_true, List.any_eq_true, Bool.and_eq_true, decide_eq_true_eq]
  refine or_congr ⟨?_, ?_⟩ ⟨h.keys.old _ hid, h.keys.kept _ horphan⟩
  · rintro ⟨p, hp, hother, hnamed⟩
    have hpdone : p.externalId ∉ listedIds done :=
      fun hmem => hid (h.mirrors p hp hmem _ hnamed)
    obtain ⟨hpcode, q, hq, hsame⟩ := h.others p hp hpdone
    rw [← face_externalId hsame.face] at hpdone hother
    rw [← face_code hsame.face] at hpcode
    exact ⟨q, mem_untouched.mpr ⟨hq, hpdone, hpcode⟩, hother, hsame.mirrors.old _ hid hnamed⟩
  · rintro ⟨q, hq, hother, hnamed⟩
    obtain ⟨hq, hqdone, hqcode⟩ := mem_untouched.mp hq
    obtain ⟨p, hp, hsame⟩ := h.kept q hq hqdone hqcode
    rw [face_externalId hsame.face] at hother
    exact ⟨p, hp, hother, hsame.mirrors.kept _ horphan hnamed⟩

/-- The turn of an entry merges the orphan of its code only where no foreign key names the orphan;
`rest` are the rows that the upserts before it leave alone. -/
def MergesFreely (db : Database) (rest : List ProblemRow) (e : CatalogEntry) : Prop :=
  OrphanHolds e.code rest → orphanId e.code ≠ e.externalId → Stored e.externalId rest →
    referenced (orphanId e.code) { db with problems := rest } = false

instance (db : Database) (rest : List ProblemRow) (e : CatalogEntry) :
    Decidable (MergesFreely db rest e) := by
  unfold MergesFreely
  infer_instance

/-- In its turn an entry can have its code when the initial row that has the code is its
own, an orphan that nothing names, or one that has had its turn. -/
theorem Progress.claimable_iff (h : Progress db done s) (hid : e.externalId ∉ listedIds done)
    (hcode : e.code ∉ listedCodes done)
    (hhistory : OrphanHolds e.code db.problems → hasHistory (orphanId e.code) db = false) :
    Claimable e s ↔ (∀ q ∈ db.problems, q.code = e.code →
      q.externalId = e.externalId ∨ isOrphanOf e.code q = true ∨
        q.externalId ∈ listedIds done) ∧ MergesFreely db (untouched done db.problems) e := by
  constructor
  · intro hclaim
    refine ⟨fun q hq hqcode => ?_, ?_⟩
    · by_cases hqdone : q.externalId ∈ listedIds done
      · exact .inr (.inr hqdone)
      · obtain ⟨p, hp, hsame⟩ := h.kept q hq hqdone (hqcode ▸ hcode)
        rcases hclaim p hp ((face_code hsame.face).symm.trans hqcode) with hpid | ⟨horphan, -⟩
        · exact .inl ((face_externalId hsame.face).trans hpid)
        · exact .inr (.inl (isOrphanOf_face hsame.face e.code ▸ horphan))
    · rintro ⟨q, hq, horphan⟩ hother hstored
      obtain ⟨hq, hqdone, hqcode⟩ := mem_untouched.mp hq
      obtain ⟨hqe, hqid, -⟩ := isOrphanOf_eq_true.mp horphan
      obtain ⟨p, hp, hsame⟩ := h.kept q hq hqdone hqcode
      rcases hclaim p hp ((face_code hsame.face).symm.trans hqe) with hpid | ⟨-, hfree⟩
      · exact absurd (hqid.symm.trans ((face_externalId hsame.face).trans hpid)) hother
      · obtain ⟨-, hreferenced⟩ := hfree ((h.stored_iff hid).mpr hstored)
        rw [Bool.eq_false_iff] at hreferenced ⊢
        exact mt (h.referenced_iff (hqid ▸ hqdone) hcode).mpr hreferenced
  · rintro ⟨hturn, hmerges⟩ p hp hpcode
    have hpdone : p.externalId ∉ listedIds done := fun hmem =>
      hcode (hpcode ▸ h.listed_code hp hmem)
    obtain ⟨-, q, hq, hsame⟩ := h.others p hp hpdone
    have hqcode : q.code = e.code := (face_code hsame.face).trans hpcode
    by_cases hown : p.externalId = e.externalId
    · exact .inl hown
    · rcases hturn q hq hqcode with hqid | horphan | hqdone
      · exact absurd ((face_externalId hsame.face).symm.trans hqid) hown
      · right
        refine ⟨isOrphanOf_face hsame.face e.code ▸ horphan, fun hstored => ?_⟩
        have hpid : orphanId e.code = p.externalId :=
          (isOrphanOf_eq_true.mp horphan).2.1.symm.trans (face_externalId hsame.face)
        have horphanDone : orphanId e.code ∉ listedIds done := hpid ▸ hpdone
        constructor
        · by_contra hsome
          rw [Bool.not_eq_false] at hsome
          have hinitial := h.history (orphanId e.code) horphanDone hsome
          exact absurd (hhistory ⟨q, hq, horphan⟩) (by simp [hinitial])
        · have hrest : q ∈ untouched done db.problems :=
            mem_untouched.mpr ⟨hq, (face_externalId hsame.face).symm ▸ hpdone, hqcode ▸ hcode⟩
          have hfree := hmerges ⟨q, hrest, horphan⟩ (hpid ▸ hown) ((h.stored_iff hid).mp hstored)
          rw [Bool.eq_false_iff] at hfree ⊢
          exact mt (h.referenced_iff horphanDone hcode).mp hfree
      · exact absurd (face_externalId hsame.face ▸ hqdone) hpdone

theorem Progress.mirrorsStored (h : Progress db (done ++ [e]) t) (hbehind : ReferencesBehind done e) :
    mirrorsStored e t.problems = true := by
  have hstored : ∀ id, e.mirrorOf = some id ∨ e.mirrorRoot = some id →
      (t.problems.any fun p => p.externalId = id) = true := by
    intro id hid
    have hlisted : id ∈ listedIds (done ++ [e]) := by
      rw [listedIds_append]
      rcases hbehind id hid with rfl | hmem
      · exact List.mem_append_right _ (List.mem_singleton.mpr rfl)
      · exact List.mem_append_left _ hmem
    obtain ⟨m, hm, rfl⟩ := List.mem_map.mp hlisted
    obtain ⟨p, hp, hface⟩ := h.own m hm
    exact List.any_eq_true.mpr ⟨p, hp, decide_eq_true (congrArg Prod.fst hface)⟩
  unfold Model.mirrorsStored
  simp only [List.all_cons, List.all_nil, Bool.and_true, Bool.and_eq_true]
  constructor
  · cases hof : e.mirrorOf with
    | none => rfl
    | some id => exact hstored id (.inl hof)
  · cases hroot : e.mirrorRoot with
    | none => rfl
    | some id => exact hstored id (.inr hroot)

theorem upsertListed_eq_ok (h : Progress db done s) (hid : e.externalId ∉ listedIds done)
    (hcode : e.code ∉ listedCodes done) (hbehind : ReferencesBehind done e) :
    upsertListed now s e = .ok t ↔ upsertProblem now e s = .ok t := by
  unfold upsertListed
  cases hup : upsertProblem now e s with
  | error err => simp
  | ok t' =>
      have hstored := (h.step hid hcode hbehind hup).mirrorsStored hbehind
      simp [hstored]

end Loop

/-! ## The whole reconcile -/

def upsertedBefore (order : List CatalogEntry) (e : CatalogEntry) : List CatalogEntry :=
  order.takeWhile fun m => m.externalId ≠ e.externalId

def earlier (order : List CatalogEntry) (e : CatalogEntry) : List String :=
  listedIds (upsertedBefore order e)

/-- Each listed code is free, its problem's own or an orphan's, or it is held by a listed
problem that is upserted earlier and so gives it up. -/
def CodesInTurn (entries : List CatalogEntry) (problems : List ProblemRow) : Prop :=
  ∀ e ∈ entries, ∀ q ∈ problems, q.code = e.code → q.externalId = e.externalId ∨
    isOrphanOf e.code q = true ∨ q.externalId ∈ earlier (reconcileOrder entries) e

instance (entries : List CatalogEntry) (problems : List ProblemRow) :
    Decidable (CodesInTurn entries problems) :=
  inferInstanceAs (Decidable (∀ e ∈ entries, ∀ q ∈ problems, q.code = e.code →
    q.externalId = e.externalId ∨ isOrphanOf e.code q = true ∨
      q.externalId ∈ earlier (reconcileOrder entries) e))

/-- No orphan of a listed code is merged while a foreign key names it. -/
def MergesInTurn (entries : List CatalogEntry) (db : Database) : Prop :=
  ∀ e ∈ entries,
    MergesFreely db (untouched (upsertedBefore (reconcileOrder entries) e) db.problems) e

instance (entries : List CatalogEntry) (db : Database) : Decidable (MergesInTurn entries db) := by
  unfold MergesInTurn
  infer_instance

/-- The database holds what the catalog lists. -/
structure Converged (entries : List CatalogEntry) (problems : List ProblemRow) : Prop where
  stored : ∀ e ∈ entries, Stored e.externalId problems
  listed : ∀ e ∈ entries, ∀ p ∈ problems, p.externalId = e.externalId →
    p.code = e.code ∧ p.catalogState = .present
  unlisted : ∀ p ∈ problems, p.externalId ∉ listedIds entries → p.catalogState ≠ .orphan →
    p.catalogState = .deleted

theorem UniqueEntries.notMem_front {order done todo : List CatalogEntry} {e : CatalogEntry}
    (h : UniqueEntries order) (hsplit : order = done ++ e :: todo) :
    e.externalId ∉ listedIds done ∧ e.code ∉ listedCodes done := by
  have hids := h.ids
  have hcodes := h.codes
  rw [hsplit, List.map_append, List.map_cons] at hids hcodes
  constructor
  · intro hmem
    exact (List.nodup_append.mp hids).2.2 _ hmem _ List.mem_cons_self rfl
  · intro hmem
    exact (List.nodup_append.mp hcodes).2.2 _ hmem _ List.mem_cons_self rfl

theorem upsertedBefore_eq {order done todo : List CatalogEntry} {e : CatalogEntry}
    (h : UniqueEntries order) (hsplit : order = done ++ e :: todo) :
    upsertedBefore order e = done := by
  unfold upsertedBefore
  rw [hsplit, List.takeWhile_append_of_pos]
  · simp
  · intro m hm
    rw [decide_eq_true_eq]
    exact fun hid => (h.notMem_front hsplit).1 (hid ▸ List.mem_map_of_mem hm)

section Reconcile

variable {now : Timestamp} {db : Database}

theorem referencesBehind (hmirrors : MirrorsResolve entries) (hunique : UniqueEntries entries)
    {done todo : List CatalogEntry} {e : CatalogEntry}
    (hsplit : reconcileOrder entries = done ++ e :: todo) : ReferencesBehind done e := by
  have hemission := reconcileOrder_emission hmirrors
  have he : e ∈ entries := by
    apply hemission.listed
    rw [hsplit]
    exact List.mem_append_right _ List.mem_cons_self
  intro id hid
  rcases hid with hof | hroot
  · exact .inr (hemission.mirrors done e todo hsplit id hof)
  · exact (hmirrors.root e he id hroot).behind hemission.mirrors hunique hemission.listed hsplit

theorem loop_progress (hdb : UniqueProblems db.problems) (hunique : UniqueEntries entries)
    (hmirrors : MirrorsResolve entries) {done todo : List CatalogEntry} {t : Database}
    (hsplit : reconcileOrder entries = done ++ todo)
    (hloop : done.foldlM (upsertListed now) db = .ok t) : Progress db done t := by
  have horder := reconcileOrder_unique hmirrors hunique
  refine foldlM_invariant
    (I := fun front s => front.IsPrefix (reconcileOrder entries) → Progress db front s)
    ?_ ?_ hloop ⟨todo, hsplit.symm⟩
  · rintro front e s t' hprogress hbody ⟨rest, hrest⟩
    have hsplit' : reconcileOrder entries = front ++ e :: rest := by
      rw [← hrest, List.append_assoc]
      rfl
    have hfront := hprogress ⟨e :: rest, hsplit'.symm⟩
    obtain ⟨hid, hcode⟩ := horder.notMem_front hsplit'
    have hbehind := referencesBehind hmirrors hunique hsplit'
    exact hfront.step hid hcode hbehind ((upsertListed_eq_ok hfront hid hcode hbehind).mp hbody)
  · exact fun _ => progress_nil hdb

theorem loop_total_iff (hdb : UniqueProblems db.problems) (hunique : UniqueEntries entries)
    (hmirrors : MirrorsResolve entries)
    (hhistory : ∀ e ∈ entries, OrphanHolds e.code db.problems →
      hasHistory (orphanId e.code) db = false) :
    (∃ t, (reconcileOrder entries).foldlM (upsertListed now) db = .ok t) ↔
      CodesInTurn entries db.problems ∧ MergesInTurn entries db := by
  have horder := reconcileOrder_unique hmirrors hunique
  constructor
  · rintro ⟨t, hloop⟩
    rw [CodesInTurn, MergesInTurn, ← forall₂_and]
    intro e he
    obtain ⟨done, todo, hsplit⟩ :=
      List.append_of_mem ((mem_reconcileOrder hunique).mpr he)
    rw [hsplit] at hloop
    obtain ⟨s, hs, u, hu⟩ := foldlM_eq_ok_at hloop
    have hprogress := loop_progress hdb hunique hmirrors hsplit hs
    obtain ⟨hid, hcode⟩ := horder.notMem_front hsplit
    have hbehind := referencesBehind hmirrors hunique hsplit
    rw [upsertListed_eq_ok hprogress hid hcode hbehind] at hu
    rw [earlier, upsertedBefore_eq horder hsplit]
    exact (hprogress.claimable_iff hid hcode (hhistory e he)).mp
      ((upsertProblem_total hprogress.unique).mp ⟨u, hu⟩)
  · rintro ⟨hturn, hmerges⟩
    have hstep : ∀ done e todo s, reconcileOrder entries = done ++ e :: todo →
        Progress db done s → ∃ t, upsertListed now s e = .ok t ∧ Progress db (done ++ [e]) t := by
      intro done e todo s hsplit hprogress
      have he : e ∈ entries := by
        rw [← mem_reconcileOrder hunique, hsplit]
        exact List.mem_append_right _ List.mem_cons_self
      obtain ⟨hid, hcode⟩ := horder.notMem_front hsplit
      have hbehind := referencesBehind hmirrors hunique hsplit
      have hturn' := hturn e he
      have hmerges' := hmerges e he
      rw [earlier, upsertedBefore_eq horder hsplit] at hturn'
      rw [upsertedBefore_eq horder hsplit] at hmerges'
      obtain ⟨t, ht⟩ : ∃ t, upsertProblem now e s = .ok t :=
        (upsertProblem_total hprogress.unique).mpr
          ((hprogress.claimable_iff hid hcode (hhistory e he)).mpr ⟨hturn', hmerges'⟩)
      exact ⟨t, (upsertListed_eq_ok hprogress hid hcode hbehind).mpr ht,
        hprogress.step hid hcode hbehind ht⟩
    obtain ⟨t, ht, -⟩ := foldlM_total hstep (progress_nil hdb)
    exact ⟨t, ht⟩

theorem not_live_iff {state : CatalogState} :
    state.live = false ↔ (state ≠ .orphan → state = .deleted) := by
  cases state <;> decide

theorem converged_iff {t : Database}
    (hlisted : ∀ id, id ∈ listedIds (reconcileOrder entries) ↔ id ∈ listedIds entries)
    (hmem : ∀ e, e ∈ reconcileOrder entries ↔ e ∈ entries)
    (h : Progress db (reconcileOrder entries) t) :
    Converged entries (markMissingOutsideCatalog now (listedIds entries) t).problems ↔
      (entries = [] → ∀ q ∈ db.problems, q.catalogState.live = false) := by
  have hown : ∀ e ∈ entries, Stored e.externalId t.problems ∧ ∀ p ∈ t.problems,
      p.externalId = e.externalId → p.code = e.code ∧ p.catalogState = .present := by
    intro e he
    obtain ⟨p, hp, hface⟩ := h.own e ((hmem e).mpr he)
    refine ⟨⟨p, hp, congrArg Prod.fst hface⟩, ?_⟩
    intro p' hp' hid
    rw [h.unique.eq_of_id hp' hp (hid.trans (congrArg Prod.fst hface).symm)]
    exact ⟨congrArg (fun f => f.2.1) hface, congrArg (fun f => f.2.2) hface⟩
  cases entries with
  | nil =>
      simp only [forall_const]
      constructor
      · intro hconverged q hq
        obtain ⟨p, hp, hsame⟩ := h.kept q hq (by simp [reconcileOrder, listedIds])
          (by simp [reconcileOrder, listedCodes])
        rw [face_catalogState hsame.face, not_live_iff]
        exact hconverged.unlisted p hp (by simp [listedIds])
      · intro hnone
        refine ⟨by simp, by simp, ?_⟩
        intro p hp hunlisted
        obtain ⟨-, q, hq, hsame⟩ := h.others p hp (by rwa [hlisted])
        rw [← face_catalogState hsame.face, ← not_live_iff]
        exact hnone q hq
  | cons e₀ rest =>
      simp only [reduceCtorEq, false_implies, iff_true]
      have hrows : (markMissingOutsideCatalog now (listedIds (e₀ :: rest)) t).problems =
          updateWhere
            (fun p => p.catalogState.live && !(listedIds (e₀ :: rest)).contains p.externalId)
            (fun p => { p with catalogState := .deleted, observedAt := now, stale := false })
            t.problems := rfl
      rw [hrows]
      refine ⟨?_, ?_, ?_⟩
      · intro e he
        exact (stored_updateWhere (by intro p; rfl) _ _).mpr (hown e he).1
      · intro e he p hp hid
        obtain ⟨p₀, hp₀, rfl⟩ := mem_updateWhere.mp hp
        split at hid
        · rename_i hwhere
          have hid : p₀.externalId = e.externalId := hid
          have hin : e.externalId ∈ listedIds (e₀ :: rest) := List.mem_map_of_mem he
          simp only [Bool.and_eq_true, Bool.not_eq_true', List.contains_eq_mem,
            decide_eq_false_iff_not] at hwhere
          exact absurd (hid ▸ hin) hwhere.2
        · rename_i hwhere
          rw [if_neg hwhere]
          exact (hown e he).2 p₀ hp₀ hid
      · intro p hp hunlisted horphan
        obtain ⟨p₀, hp₀, rfl⟩ := mem_updateWhere.mp hp
        split
        · rfl
        · rename_i hwhere
          rw [if_neg hwhere] at hunlisted horphan
          have hdead : p₀.catalogState.live = false := by
            simpa [hunlisted] using hwhere
          exact not_live_iff.mp hdead horphan

end Reconcile

/-- Problem 8 mirrors problem 7 and takes the code that 7 gives up for that of an orphan. -/
def shiftedEntries : List CatalogEntry :=
  [{ sampleEntry with externalId := "8", code := "max", mirrorOf := some "7" }, sampleEntry]

def shiftedDb : Database :=
  { problems :=
      [catalogRow 0 { sampleEntry with code := "max" } .present,
        catalogRow 0 { sampleEntry with externalId := "8", code := "min" } .present,
        orphanRow "sums"] }

theorem shiftedEntries_mirrorsResolve : MirrorsResolve shiftedEntries := by
  refine ⟨by decide, ⟨fun id => if id = "8" then 1 else 0, by decide⟩, ?_⟩
  intro e he id hroot
  simp only [shiftedEntries, List.mem_cons, List.not_mem_nil, or_false] at he
  rcases he with rfl | rfl <;> cases hroot

def swappedEntries : List CatalogEntry :=
  [sampleEntry, { sampleEntry with externalId := "8", code := "max" }]

def swappedDb : Database :=
  { problems :=
      [catalogRow 0 { sampleEntry with code := "max" } .present,
        catalogRow 0 { sampleEntry with externalId := "8" } .present] }

end ExternalStorage.Catalog
