import ExternalStorage.Catalog.Upserts
import ExternalStorage.Library.Loops
import Mathlib.Data.List.Perm.Subperm
import Mathlib.Logic.Relation

/-!
# The order of a reconcile

`emit` follows the `mirror_of` references of a problem before it pushes the problem.  The
references may lead anywhere, also round in circles; what stops the recursion is that the
guard never takes an id twice.
-/

namespace ExternalStorage.Catalog

open ExternalStorage.Model Library.Table Library.Loops

def listedIds (entries : List CatalogEntry) : List String := entries.map CatalogEntry.externalId

/-- `mirror_of` of a listed problem `id` names the listed problem `target`. -/
def MirrorsListed (entries : List CatalogEntry) (id target : String) : Prop :=
  target ∈ listedIds entries ∧ ∃ e ∈ entries, e.externalId = id ∧ e.mirrorOf = some target

/-- Some references lead from the problem back to it. -/
def OnCycle (entries : List CatalogEntry) (id : String) : Prop :=
  Relation.TransGen (MirrorsListed entries) id id

/-- `emit` as it recurses, with `none` where the recursion has gone deeper than `fuel`. -/
def emit? (entries : List CatalogEntry) :
    Nat → CatalogEntry → List String → List CatalogEntry → Option (List CatalogEntry)
  | 0, _, _, _ => none
  | fuel + 1, p, guard, ordered =>
      if emitted ordered p.externalId || guard.contains p.externalId then
        some ordered
      else do
        let ordered ←
          match p.mirrorOf.bind (byId entries) with
          | none => some ordered
          | some parent =>
              if emitted ordered parent.externalId then some ordered
              else emit? entries fuel parent (p.externalId :: guard) ordered
        return if emitted ordered p.externalId then ordered else ordered ++ [p]

def reconcileOrder? (entries : List CatalogEntry) (fuel : Nat) : Option (List CatalogEntry) :=
  entries.foldlM (fun ordered p => emit? entries fuel p [] ordered) []

/-! ## The list -/

theorem mem_of_byId {entries : List CatalogEntry} {id : String} {m : CatalogEntry}
    (h : byId entries id = some m) : m ∈ entries ∧ m.externalId = id := by
  refine ⟨List.mem_reverse.mp (List.mem_of_find?_eq_some h), ?_⟩
  simpa using List.find?_some h

theorem byId_eq_none {entries : List CatalogEntry} {id : String} (h : byId entries id = none) :
    ∀ m ∈ entries, m.externalId ≠ id := by
  intro m hm
  simpa using List.find?_eq_none.mp h m (List.mem_reverse.mpr hm)

theorem emitted_eq_true {ordered : List CatalogEntry} {id : String} :
    emitted ordered id = true ↔ id ∈ listedIds ordered := by
  simp [emitted, listedIds]

theorem listedIds_append (l₁ l₂ : List CatalogEntry) :
    listedIds (l₁ ++ l₂) = listedIds l₁ ++ listedIds l₂ :=
  List.map_append

theorem parent_eq_some {entries : List CatalogEntry} {p parent : CatalogEntry}
    (h : p.mirrorOf.bind (byId entries) = some parent) :
    parent ∈ entries ∧ p.mirrorOf = some parent.externalId := by
  obtain ⟨id, hof, hid⟩ := Option.bind_eq_some_iff.mp h
  obtain ⟨hlisted, rfl⟩ := mem_of_byId hid
  exact ⟨hlisted, hof⟩

theorem notMem_of_parent_eq_none {entries : List CatalogEntry} {p : CatalogEntry} {target : String}
    (h : p.mirrorOf.bind (byId entries) = none) (hof : p.mirrorOf = some target) :
    target ∉ listedIds entries := by
  intro hmem
  obtain ⟨m, hm, hid⟩ := List.mem_map.mp hmem
  rw [hof, Option.bind_some] at h
  exact byId_eq_none h m hm hid

/-! ## Termination -/

section

variable {entries : List CatalogEntry}

structure Guarded (entries : List CatalogEntry) (guard : List String) : Prop where
  nodup : guard.Nodup
  listed : ∀ id ∈ guard, id ∈ listedIds entries

theorem guarded_nil : Guarded entries [] := ⟨List.nodup_nil, by simp⟩

theorem Guarded.cons {guard : List String} {p : CatalogEntry} (h : Guarded entries guard)
    (hp : p ∈ entries) (hnew : p.externalId ∉ guard) :
    Guarded entries (p.externalId :: guard) :=
  ⟨List.nodup_cons.mpr ⟨hnew, h.nodup⟩,
    List.forall_mem_cons.mpr ⟨List.mem_map_of_mem hp, h.listed⟩⟩

theorem Guarded.length_le {guard : List String} (h : Guarded entries guard) :
    guard.length ≤ entries.length :=
  calc guard.length ≤ (listedIds entries).length :=
        (List.subperm_of_subset h.nodup h.listed).length_le
    _ = entries.length := List.length_map ..

/-- With fuel for every entry that is not in the guard, `emit` comes to its end, and it comes
to the same end with more. -/
theorem emit?_eq_some (fuel fuel' : Nat) {p : CatalogEntry} {guard : List String}
    {ordered : List CatalogEntry} (hp : p ∈ entries) (hguard : Guarded entries guard)
    (hfuel : entries.length < fuel + guard.length)
    (hfuel' : entries.length < fuel' + guard.length) :
    emit? entries fuel p guard ordered = some (emit entries fuel' p guard ordered) := by
  have hle := hguard.length_le
  induction fuel generalizing fuel' p guard ordered with
  | zero => omega
  | succ fuel ih =>
      cases fuel' with
      | zero => omega
      | succ fuel' =>
          rw [emit?, emit]
          by_cases hstop : (emitted ordered p.externalId || guard.contains p.externalId) = true
          · rw [if_pos hstop, if_pos hstop]
          · rw [if_neg hstop, if_neg hstop]
            cases hparent : p.mirrorOf.bind (byId entries) with
            | none => rfl
            | some parent =>
                dsimp only
                by_cases hdone : emitted ordered parent.externalId = true
                · rw [if_pos hdone, if_pos hdone]
                  rfl
                · have hnew : p.externalId ∉ guard := by
                    intro hmem
                    exact hstop (by simp [hmem])
                  have hcons := hguard.cons hp hnew
                  rw [if_neg hdone, if_neg hdone, ih fuel' (parent_eq_some hparent).1 hcons
                    (by rw [List.length_cons]; omega) (by rw [List.length_cons]; omega)
                    hcons.length_le]
                  rfl

theorem foldlM_emit?_eq_some {fuel : Nat} (hfuel : entries.length < fuel)
    {todo ordered : List CatalogEntry} (htodo : ∀ e ∈ todo, e ∈ entries) :
    todo.foldlM (fun ordered p => emit? entries fuel p [] ordered) ordered =
      some (todo.foldl (fun ordered p => emit entries (entries.length + 1) p [] ordered)
        ordered) := by
  induction todo generalizing ordered with
  | nil => rfl
  | cons p todo ih =>
      obtain ⟨hp, htodo⟩ := List.forall_mem_cons.mp htodo
      rw [List.foldlM_cons, List.foldl_cons,
        emit?_eq_some fuel (entries.length + 1) hp guarded_nil hfuel (Nat.lt_succ_self _)]
      exact ih htodo

/-! ## What has been emitted -/

structure Ordering (entries ordered : List CatalogEntry) : Prop where
  ids : (listedIds ordered).Nodup
  listed : ∀ e ∈ ordered, e ∈ entries
  behind : ∀ done e todo, ordered = done ++ e :: todo → ¬ OnCycle entries e.externalId →
    ∀ target, e.mirrorOf = some target → target ∈ listedIds entries → target ∈ listedIds done

theorem ordering_nil (entries : List CatalogEntry) : Ordering entries [] :=
  ⟨List.nodup_nil, by simp, by simp⟩

theorem Ordering.append {ordered : List CatalogEntry} {p : CatalogEntry}
    (h : Ordering entries ordered) (hp : p ∈ entries) (hnew : p.externalId ∉ listedIds ordered)
    (hparent : ¬ OnCycle entries p.externalId → ∀ target, p.mirrorOf = some target →
      target ∈ listedIds entries → target ∈ listedIds ordered) :
    Ordering entries (ordered ++ [p]) := by
  refine ⟨?_, ?_, ?_⟩
  · rw [listedIds_append]
    apply List.nodup_append.mpr ⟨h.ids, List.nodup_singleton _, _⟩
    rintro a ha b hb rfl
    exact hnew (List.mem_singleton.mp hb ▸ ha)
  · intro e he
    rcases List.mem_append.mp he with he | he
    · exact h.listed e he
    · rw [List.mem_singleton.mp he]
      exact hp
  · intro done e todo heq
    -- the split is inside `ordered`, or `e` is the new entry
    rcases List.eq_nil_or_concat todo with rfl | ⟨todo', q, rfl⟩
    · obtain ⟨hsame, hlast⟩ := List.append_inj' heq rfl
      rw [← hsame, ← (List.cons.inj hlast).1]
      exact hparent
    · rw [List.concat_eq_append, ← List.cons_append, ← List.append_assoc] at heq
      exact h.behind done e todo' (List.append_inj' heq rfl).1

/-- `ordered` has come to hold `id`, unless the guard stood before it, and what it held. -/
structure Emits (entries : List CatalogEntry) (guard : List String)
    (ordered ordered' : List CatalogEntry) (id : String) : Prop where
  ordering : Ordering entries ordered'
  own : id ∈ guard ∨ id ∈ listedIds ordered'
  grows : ∀ id ∈ listedIds ordered, id ∈ listedIds ordered'

theorem emits_self {p : CatalogEntry} {guard : List String} {ordered before : List CatalogEntry}
    (hp : p ∈ entries) (h : Ordering entries before)
    (hgrows : ∀ id ∈ listedIds ordered, id ∈ listedIds before)
    (hparent : ¬ OnCycle entries p.externalId → ∀ target, p.mirrorOf = some target →
      target ∈ listedIds entries → target ∈ listedIds before) :
    Emits entries guard ordered
      (if emitted before p.externalId then before else before ++ [p]) p.externalId := by
  by_cases hpd : emitted before p.externalId = true
  · rw [if_pos hpd]
    exact ⟨h, .inr (emitted_eq_true.mp hpd), hgrows⟩
  · rw [if_neg hpd]
    refine ⟨h.append hp (fun hmem => hpd (emitted_eq_true.mpr hmem)) hparent, .inr ?_, ?_⟩
    · rw [listedIds_append]
      exact List.mem_append_right _ (List.mem_singleton.mpr rfl)
    · intro id hid
      rw [listedIds_append]
      exact List.mem_append_left _ (hgrows id hid)

theorem onCycle_of_mem_guard {p parent : CatalogEntry} {guard : List String} (hp : p ∈ entries)
    (hparent : p.mirrorOf.bind (byId entries) = some parent)
    (hreach : ∀ id ∈ guard, Relation.TransGen (MirrorsListed entries) id p.externalId)
    (hmem : parent.externalId ∈ p.externalId :: guard) : OnCycle entries p.externalId := by
  obtain ⟨hlisted, hof⟩ := parent_eq_some hparent
  have href : MirrorsListed entries p.externalId parent.externalId :=
    ⟨List.mem_map_of_mem hlisted, p, hp, rfl, hof⟩
  rcases List.mem_cons.mp hmem with hself | hmem
  · rw [hself] at href
    exact .single href
  · exact .head href (hreach _ hmem)

/-- The guard holds problems whose references lead to the one at hand. -/
theorem emit_emits (fuel : Nat) {p : CatalogEntry} {guard : List String}
    {ordered : List CatalogEntry} (hp : p ∈ entries) (hguard : Guarded entries guard)
    (hreach : ∀ id ∈ guard, Relation.TransGen (MirrorsListed entries) id p.externalId)
    (hfuel : entries.length < fuel + guard.length) (h : Ordering entries ordered) :
    Emits entries guard ordered (emit entries fuel p guard ordered) p.externalId := by
  have hle := hguard.length_le
  induction fuel generalizing p guard ordered with
  | zero => omega
  | succ fuel ih =>
      rw [emit]
      by_cases hdone : emitted ordered p.externalId = true
      · rw [hdone, Bool.true_or, if_pos rfl]
        exact ⟨h, .inr (emitted_eq_true.mp hdone), fun id hid => hid⟩
      by_cases hstop : p.externalId ∈ guard
      · rw [List.contains_iff_mem.mpr hstop, Bool.or_true, if_pos rfl]
        exact ⟨h, .inl hstop, fun id hid => hid⟩
      rw [if_neg (by simp [hdone, hstop])]
      cases hparent : p.mirrorOf.bind (byId entries) with
      | none =>
          apply emits_self hp h fun id hid => hid
          intro _ target hof hlisted
          exact absurd hlisted (notMem_of_parent_eq_none hparent hof)
      | some parent =>
          obtain ⟨hlisted, hof⟩ := parent_eq_some hparent
          have hsame : ∀ target, p.mirrorOf = some target → target = parent.externalId := by
            intro target htarget
            exact (Option.some.inj (hof.symm.trans htarget)).symm
          dsimp only
          by_cases hpd : emitted ordered parent.externalId = true
          · rw [if_pos hpd]
            apply emits_self hp h fun id hid => hid
            intro _ target htarget _
            rw [hsame target htarget]
            exact emitted_eq_true.mp hpd
          · rw [if_neg hpd]
            have href : MirrorsListed entries p.externalId parent.externalId :=
              ⟨List.mem_map_of_mem hlisted, p, hp, rfl, hof⟩
            have hcons := hguard.cons hp hstop
            have hemits : Emits entries (p.externalId :: guard) ordered
                (emit entries fuel parent (p.externalId :: guard) ordered)
                parent.externalId := by
              apply ih hlisted hcons ?_ ?_ h hcons.length_le
              · refine List.forall_mem_cons.mpr ⟨.single href, ?_⟩
                exact fun id hid => (hreach id hid).tail href
              · rw [List.length_cons]
                omega
            apply emits_self hp hemits.ordering hemits.grows
            intro hcycle target htarget _
            rw [hsame target htarget]
            exact hemits.own.resolve_left fun hmem =>
              hcycle (onCycle_of_mem_guard hp hparent hreach hmem)

theorem emits_fold {todo ordered : List CatalogEntry} (htodo : ∀ e ∈ todo, e ∈ entries)
    (h : Ordering entries ordered) :
    let result := todo.foldl (fun ordered p => emit entries (entries.length + 1) p [] ordered)
      ordered
    Ordering entries result ∧ (∀ id ∈ listedIds ordered, id ∈ listedIds result) ∧
      ∀ e ∈ todo, e.externalId ∈ listedIds result := by
  induction todo generalizing ordered with
  | nil => exact ⟨h, fun id hid => hid, by simp⟩
  | cons p todo ih =>
      obtain ⟨hp, htodo⟩ := List.forall_mem_cons.mp htodo
      have hemits := emit_emits (entries.length + 1) hp guarded_nil (by simp)
        (Nat.lt_succ_self _) h
      obtain ⟨hordering, hgrows, hlisted⟩ := ih htodo hemits.ordering
      refine ⟨hordering, fun id hid => hgrows id (hemits.grows id hid), ?_⟩
      intro e he
      rcases List.mem_cons.mp he with rfl | he
      · exact hgrows _ (hemits.own.resolve_left List.not_mem_nil)
      · exact hlisted e he

theorem reconcileOrder_ordering (entries : List CatalogEntry) :
    Ordering entries (reconcileOrder entries) :=
  (emits_fold (fun _ he => he) (ordering_nil entries)).1

theorem mem_listedIds_reconcileOrder {e : CatalogEntry} (he : e ∈ entries) :
    e.externalId ∈ listedIds (reconcileOrder entries) :=
  (emits_fold (fun _ he => he) (ordering_nil entries)).2.2 e he

theorem reconcileOrder_perm (hids : (listedIds entries).Nodup) :
    (reconcileOrder entries).Perm entries := by
  have hordering := reconcileOrder_ordering entries
  apply (List.perm_ext_iff_of_nodup (List.Nodup.of_map _ hordering.ids)
    (List.Nodup.of_map _ hids)).mpr
  intro e
  refine ⟨hordering.listed e, fun he => ?_⟩
  obtain ⟨m, hm, hid⟩ := List.mem_map.mp (mem_listedIds_reconcileOrder he)
  rw [← List.inj_on_of_nodup_map hids (hordering.listed m hm) he hid]
  exact hm

end

/-! ## The rows that the loop of upserts finds -/

def Placed (externalId : String) (problems : List ProblemRow) : Prop :=
  ∃ p ∈ problems, p.externalId = externalId ∧ p.catalogState = .present

theorem upsertListed_ok {now : Timestamp} {e : CatalogEntry} {s t : Database}
    (h : upsertListed now s e = .ok t) : upsertProblem now e s = .ok t := by
  unfold upsertListed at h
  cases hup : upsertProblem now e s with
  | error err =>
      rw [hup] at h
      cases h
  | ok t' =>
      rw [hup] at h
      dsimp only at h
      split at h
      · rw [Except.ok.inj h]
      · cases h

/-- A row in place has no orphan's state, so no other upsert can take it over. -/
theorem placed_upsertProblem {now : Timestamp} {e : CatalogEntry} {s t : Database} {id : String}
    (hunique : UniqueProblems s.problems) (h : upsertProblem now e s = .ok t)
    (hplaced : Placed id s.problems) : Placed id t.problems := by
  obtain ⟨p, hp, rfl, hstate⟩ := hplaced
  have hupserted := upsertProblem_upserted hunique h
  by_cases hid : p.externalId = e.externalId
  · obtain ⟨p', hp', hface, -⟩ := hupserted.own
    simp only [face, Prod.mk.injEq] at hface
    exact ⟨p', hp', hface.1.trans hid.symm, hface.2.2⟩
  · have hcode : p.code ≠ e.code := by
      intro hcode
      rcases (upsertProblem_total hunique).mp ⟨t, h⟩ p hp hcode with hown | ⟨horphan, -⟩
      · exact hid hown
      · rw [(isOrphanOf_eq_true.mp horphan).2.2] at hstate
        cases hstate
    obtain ⟨p', hp', hsame⟩ := hupserted.kept p hp hid hcode
    have hface := hsame.face
    simp only [face, Prod.mk.injEq] at hface
    exact ⟨p', hp', hface.1.symm, hface.2.2.symm.trans hstate⟩

theorem placed_foldlM {now : Timestamp} {db s : Database} {done : List CatalogEntry}
    (hunique : UniqueProblems db.problems) (h : done.foldlM (upsertListed now) db = .ok s) :
    UniqueProblems s.problems ∧ ∀ m ∈ done, Placed m.externalId s.problems := by
  apply foldlM_invariant (I := fun done s => UniqueProblems s.problems ∧
    ∀ m ∈ done, Placed m.externalId s.problems) ?_ ⟨hunique, by simp⟩ h
  rintro done e s t ⟨hunique, hdone⟩ hstep
  have hup := upsertListed_ok hstep
  have hupserted := upsertProblem_upserted hunique hup
  refine ⟨hupserted.unique, ?_⟩
  intro m hm
  rcases List.mem_append.mp hm with hm | hm
  · exact placed_upsertProblem hunique hup (hdone m hm)
  · obtain ⟨p, hp, hface, -⟩ := hupserted.own
    simp only [face, Prod.mk.injEq] at hface
    rw [List.mem_singleton.mp hm]
    exact ⟨p, hp, hface.1, hface.2.2⟩

/-- `emit` returns, and pushes every problem of the list once.  A problem that no cycle of
references leads back to comes after the listed problem that it mirrors, so that its upsert
finds the row that its `mirror_of` references. -/
theorem mirror_order {entries : List CatalogEntry}
    (hids : (entries.map CatalogEntry.externalId).Nodup) :
    (∀ fuel, entries.length < fuel →
      reconcileOrder? entries fuel = some (reconcileOrder entries)) ∧
    (reconcileOrder entries).Perm entries ∧
    ∀ done e todo, reconcileOrder entries = done ++ e :: todo →
      ¬ OnCycle entries e.externalId →
      ∀ m ∈ entries, e.mirrorOf = some m.externalId →
        m ∈ done ∧
        ∀ now db s t, UniqueProblems db.problems →
          done.foldlM (upsertListed now) db = .ok s → upsertProblem now e s = .ok t →
          Stored m.externalId t.problems := by
  refine ⟨fun fuel hfuel => foldlM_emit?_eq_some hfuel fun _ he => he,
    reconcileOrder_perm hids, ?_⟩
  intro done e todo hsplit hcycle m hm hof
  have hordering := reconcileOrder_ordering entries
  have hmem : m ∈ done := by
    obtain ⟨m', hm', hid⟩ := List.mem_map.mp (hordering.behind done e todo hsplit hcycle
      m.externalId hof (List.mem_map_of_mem hm))
    have hlisted : m' ∈ entries := by
      apply hordering.listed
      rw [hsplit]
      exact List.mem_append_left _ hm'
    rwa [← List.inj_on_of_nodup_map hids hlisted hm hid]
  refine ⟨hmem, ?_⟩
  intro now db s t hunique hdone hup
  obtain ⟨huniques, hplaced⟩ := placed_foldlM hunique hdone
  obtain ⟨p, hp, hid, -⟩ := placed_upsertProblem huniques hup (hplaced m hmem)
  exact ⟨p, hp, hid⟩

def mirroredEntries : List CatalogEntry :=
  [{ sampleEntry with externalId := "1", code := "mirror", mirrorOf := some "7" },
    { sampleEntry with externalId := "2", code := "left", mirrorOf := some "3" },
    { sampleEntry with externalId := "3", code := "right", mirrorOf := some "2" },
    sampleEntry]

theorem mirror_order_mirrored :
    reconcileOrder? mirroredEntries 5 = some (reconcileOrder mirroredEntries) ∧
      (reconcileOrder mirroredEntries).Perm mirroredEntries ∧
      ∃ done e todo, reconcileOrder mirroredEntries = done ++ e :: todo ∧
        e.externalId = "1" ∧ sampleEntry ∈ done := by
  obtain ⟨hfuel, hperm, hbehind⟩ := @mirror_order mirroredEntries (by decide)
  refine ⟨hfuel 5 (by decide), hperm, [sampleEntry], _, _, rfl, rfl, ?_⟩
  have hends : ∀ target, ¬ MirrorsListed mirroredEntries "7" target := by
    rintro target ⟨-, e, he, hid, hof⟩
    have hnone : ∀ e ∈ mirroredEntries, e.externalId = "7" → e.mirrorOf = none := by decide
    rw [hnone e he hid] at hof
    cases hof
  have honly : ∀ target, MirrorsListed mirroredEntries "1" target → target = "7" := by
    rintro target ⟨-, e, he, hid, hof⟩
    have hseven : ∀ e ∈ mirroredEntries, e.externalId = "1" → e.mirrorOf = some "7" := by decide
    rw [hseven e he hid] at hof
    exact (Option.some.inj hof).symm
  have hcycle : ¬ OnCycle mirroredEntries "1" := by
    intro h
    obtain ⟨target, href, hrest⟩ := Relation.TransGen.head'_iff.mp h
    rw [honly target href] at hrest
    rcases Relation.ReflTransGen.cases_head hrest with heq | ⟨next, href, -⟩
    · exact absurd heq (by decide)
    · exact hends next href
  exact (hbehind [sampleEntry] _ _ rfl hcycle sampleEntry (by decide) rfl).1

end ExternalStorage.Catalog
