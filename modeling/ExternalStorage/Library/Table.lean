import Mathlib.Data.List.Nodup

/-!
# Relational tables as lists of rows

The statements of a relational database on one table, as functions on the list
of its rows: `UPDATE … WHERE`, `DELETE … WHERE`, `INSERT … ON CONFLICT (key) DO
UPDATE` and the aggregate `MAX`.  A row is any type, a `WHERE` clause is a
Boolean on rows and a key is any function of the row.
-/

namespace ExternalStorage.Library.Table

variable {ρ κ : Type*}

/-- `UPDATE rows SET f WHERE p`. -/
def updateWhere (p : ρ → Bool) (f : ρ → ρ) (rows : List ρ) : List ρ :=
  rows.map fun r => if p r then f r else r

/-- `DELETE FROM rows WHERE p`. -/
def deleteWhere (p : ρ → Bool) (rows : List ρ) : List ρ :=
  rows.filter fun r => !p r

/-- `INSERT new … ON CONFLICT (key) DO UPDATE SET merge`. -/
def upsertOn [DecidableEq κ] (key : ρ → κ) (new : ρ) (merge : ρ → ρ) (rows : List ρ) : List ρ :=
  if rows.any fun r => key r = key new then
    updateWhere (fun r => key r = key new) merge rows
  else
    rows ++ [new]

/-- `SELECT MAX(f) FROM rows WHERE p`; `none` is SQL's `NULL` on no row. -/
def maxWhere (p : ρ → Bool) (f : ρ → Int) (rows : List ρ) : Option Int :=
  ((rows.filter p).map f).max?

theorem mem_updateWhere {p : ρ → Bool} {f : ρ → ρ} {rows : List ρ} {r : ρ} :
    r ∈ updateWhere p f rows ↔ ∃ r₀ ∈ rows, r = if p r₀ then f r₀ else r₀ := by
  simp only [updateWhere, List.mem_map, eq_comm]

theorem mem_deleteWhere {p : ρ → Bool} {rows : List ρ} {r : ρ} :
    r ∈ deleteWhere p rows ↔ r ∈ rows ∧ p r = false := by
  simp [deleteWhere]

/-- Two updates, one after the other, as one. -/
theorem updateWhere_updateWhere (p q : ρ → Bool) (f g : ρ → ρ) (rows : List ρ) :
    updateWhere p f (updateWhere q g rows) =
      updateWhere (fun _ => true)
        (fun r => if p (if q r then g r else r) then f (if q r then g r else r)
          else if q r then g r else r) rows := by
  simp only [updateWhere, List.map_map, Function.comp_def, if_true]

/-- An update that leaves a column alone leaves the list of its values alone. -/
theorem map_updateWhere {p : ρ → Bool} {f : ρ → ρ} {g : ρ → κ}
    (hf : ∀ r, g (f r) = g r) (rows : List ρ) :
    (updateWhere p f rows).map g = rows.map g := by
  rw [updateWhere, List.map_map]
  apply List.map_congr_left
  intro r _
  simp only [Function.comp_apply]
  split
  · exact hf r
  · rfl

theorem updateWhere_eq_self {p : ρ → Bool} {f : ρ → ρ} {rows : List ρ}
    (h : ∀ r ∈ rows, p r = true → f r = r) : updateWhere p f rows = rows := by
  rw [updateWhere]
  conv_rhs => rw [← List.map_id rows]
  apply List.map_congr_left
  intro r hr
  by_cases hp : p r = true
  · simp [hp, h r hr hp]
  · simp [hp]

/-- An update that no selected row's test notices leaves the count alone. -/
theorem countP_updateWhere {p q : ρ → Bool} {f : ρ → ρ} {rows : List ρ}
    (h : ∀ r ∈ rows, p r = true → q (f r) = q r) :
    (updateWhere p f rows).countP q = rows.countP q := by
  rw [updateWhere, List.countP_map]
  apply List.countP_congr
  intro r hr
  rw [Function.comp_apply]
  split
  · rename_i hp
    rw [h r hr hp]
  · rfl

theorem countP_updateWhere_of_false {p q : ρ → Bool} {f : ρ → ρ} {rows : List ρ}
    (h : ∀ r ∈ rows, p r = true → q (f r) = false) :
    (updateWhere p f rows).countP q + rows.countP (fun r => p r && q r) = rows.countP q := by
  induction rows with
  | nil => rfl
  | cons r rows ih =>
      obtain ⟨hr, hrest⟩ := List.forall_mem_cons.mp h
      have hrows := ih hrest
      simp only [updateWhere, List.map_cons, List.countP_cons] at hrows ⊢
      cases hp : p r with
      | false =>
          simp only [Bool.false_eq_true, if_false, Bool.false_and]
          omega
      | true =>
          simp only [if_true, hr hp, Bool.false_eq_true, if_false, Bool.true_and]
          omega

theorem countP_deleteWhere (p q : ρ → Bool) (rows : List ρ) :
    (deleteWhere p rows).countP q + rows.countP (fun r => p r && q r) = rows.countP q := by
  induction rows with
  | nil => rfl
  | cons r rows ih =>
      simp only [deleteWhere, List.countP_cons] at ih ⊢
      cases hp : p r with
      | false =>
          rw [List.filter_cons_of_pos (by rw [hp]; rfl), List.countP_cons]
          simp only [Bool.false_and, Bool.false_eq_true, if_false]
          omega
      | true =>
          rw [List.filter_cons_of_neg (by rw [hp]; decide)]
          simp only [Bool.true_and]
          omega

/-- A key that is unique in the table names at most one row. -/
theorem countP_key_le_one [DecidableEq κ] {key : ρ → κ} {rows : List ρ}
    (hkeys : (rows.map key).Nodup) (k : κ) (q : ρ → Bool) :
    rows.countP (fun r => decide (key r = k) && q r) ≤ 1 :=
  calc rows.countP (fun r => decide (key r = k) && q r)
      ≤ rows.countP fun r => decide (key r = k) := by
        apply List.countP_mono_left
        intro r _ hr
        exact (Bool.and_eq_true_iff.mp hr).1
    _ = (rows.map key).count k := by
        rw [List.count, List.countP_map]
        rfl
    _ ≤ 1 := List.nodup_iff_count_le_one.mp hkeys k

/-- An update keeps what is seen of the rows of `q` exactly when it changes nothing of
it on any row it addresses. -/
theorem map_filter_updateWhere {p q : ρ → Bool} {f : ρ → ρ} {view : ρ → κ}
    (hq : ∀ r, q (f r) = q r) (rows : List ρ) :
    ((updateWhere p f rows).filter q).map view = (rows.filter q).map view ↔
      ∀ r ∈ rows, q r = true → p r = true → view (f r) = view r := by
  have hfilter : (updateWhere p f rows).filter q =
      (rows.filter q).map fun r => if p r then f r else r := by
    rw [updateWhere, List.filter_map]
    congr 1
    apply List.filter_congr
    intro r _
    rw [Function.comp_apply]
    split
    · exact hq r
    · rfl
  rw [hfilter, List.map_map, List.map_inj_left]
  simp only [List.mem_filter, Function.comp_apply, and_imp]
  constructor
  · intro h r hr hqr hp
    have hview := h r hr hqr
    rwa [if_pos hp] at hview
  · intro h r hr hqr
    split
    · rename_i hp
      exact h r hr hqr hp
    · rfl

theorem filter_updateWhere_of_apart {p q : ρ → Bool} {f : ρ → ρ} {rows : List ρ}
    (h : ∀ r ∈ rows, p r = true → q r = false ∧ q (f r) = false) :
    (updateWhere p f rows).filter q = rows.filter q := by
  induction rows with
  | nil => rfl
  | cons r rows ih =>
      have ih := ih fun s hs => h s (List.mem_cons_of_mem _ hs)
      rw [updateWhere, List.map_cons, ← updateWhere, List.filter_cons, List.filter_cons, ih]
      by_cases hp : p r = true
      · obtain ⟨hq, hf⟩ := h r List.mem_cons_self hp
        simp [hp, hq, hf]
      · rw [if_neg hp]

section Upsert

variable [DecidableEq κ] {key : ρ → κ} {new : ρ} {merge : ρ → ρ} {rows : List ρ}

/-- Every row after an upsert is an untouched row, a merged row of the same key,
or the new row, and the new row only goes in where its key was free. -/
theorem mem_upsertOn {r : ρ} :
    r ∈ upsertOn key new merge rows ↔
      (r ∈ rows ∧ key r ≠ key new) ∨
      (∃ r₀ ∈ rows, key r₀ = key new ∧ r = merge r₀) ∨
      (r = new ∧ ∀ r₀ ∈ rows, key r₀ ≠ key new) := by
  unfold upsertOn
  split
  · rename_i hany
    simp only [List.any_eq_true, decide_eq_true_eq] at hany
    obtain ⟨r₁, hr₁, hk₁⟩ := hany
    rw [mem_updateWhere]
    constructor
    · rintro ⟨r₀, hr₀, rfl⟩
      by_cases hk : key r₀ = key new
      · exact Or.inr (Or.inl ⟨r₀, hr₀, hk, by simp [hk]⟩)
      · exact Or.inl ⟨by simpa [hk] using hr₀, by simp [hk]⟩
    · rintro (⟨hr, hk⟩ | ⟨r₀, hr₀, hk, rfl⟩ | ⟨-, hfree⟩)
      · exact ⟨r, hr, by simp [hk]⟩
      · exact ⟨r₀, hr₀, by simp [hk]⟩
      · exact absurd hk₁ (hfree r₁ hr₁)
  · rename_i hany
    simp only [List.any_eq_true, decide_eq_true_eq, not_exists, not_and] at hany
    rw [List.mem_append, List.mem_singleton]
    constructor
    · rintro (hr | rfl)
      · exact Or.inl ⟨hr, hany r hr⟩
      · exact Or.inr (Or.inr ⟨rfl, hany⟩)
    · rintro (⟨hr, -⟩ | ⟨r₀, hr₀, hk, -⟩ | ⟨rfl, -⟩)
      · exact Or.inl hr
      · exact absurd hk (hany r₀ hr₀)
      · exact Or.inr rfl

theorem find?_key_updateWhere {k : κ} {p : ρ → Bool} {f : ρ → ρ} (hf : ∀ r, key (f r) = key r)
    (rows : List ρ) :
    (updateWhere p f rows).find? (fun r => key r = k) =
      (rows.find? fun r => key r = k).map fun r => if p r then f r else r := by
  induction rows with
  | nil => rfl
  | cons r rows ih =>
      have hkey : key (if p r then f r else r) = key r := by
        split
        · exact hf r
        · rfl
      rw [updateWhere, List.map_cons, List.find?_cons, List.find?_cons, hkey]
      by_cases hr : key r = k
      · simp [hr]
      · simp only [hr, decide_false]
        exact ih

theorem find?_key_and {k : κ} {q : ρ → Bool} {rows : List ρ} {r : ρ}
    (h : rows.find? (fun r => key r = k) = some r) (hq : q r = true) :
    rows.find? (fun r => key r = k && q r) = some r := by
  induction rows with
  | nil => cases h
  | cons s rows ih =>
      rw [List.find?_cons] at h ⊢
      by_cases hs : key s = k
      · simp only [hs, decide_true, Option.some.injEq] at h
        subst h
        simp [hs, hq]
      · simp only [hs, decide_false] at h
        simp only [hs, decide_false, Bool.false_and]
        exact ih h

theorem find?_updateWhere {k : κ} {a : κ} {f : ρ → ρ} (hf : ∀ r, key (f r) = key r)
    (rows : List ρ) :
    (updateWhere (fun r => key r = a) f rows).find? (fun r => key r = k) =
      (rows.find? fun r => key r = k).map fun r => if key r = a then f r else r := by
  rw [find?_key_updateWhere hf]
  simp only [decide_eq_true_eq]

/-- A deletion of one key leaves the others to be found. -/
theorem find?_deleteWhere {k a : κ} (hne : k ≠ a) (rows : List ρ) :
    (deleteWhere (fun r => key r = a) rows).find? (fun r => key r = k) =
      rows.find? fun r => key r = k := by
  rw [deleteWhere, List.find?_filter]
  congr 1
  funext r
  by_cases hr : key r = k
  · simp [hr, hne]
  · simp [hr]

/-- Looking up a key after an upsert: a hit of the upserted key is the merged row or the
new one. -/
theorem find?_upsertOn (hmerge : ∀ r, key (merge r) = key r) (k : κ) :
    (upsertOn key new merge rows).find? (fun r => key r = k) =
      if k = key new then
        some (((rows.find? fun r => key r = k).map merge).getD new)
      else
        rows.find? fun r => key r = k := by
  unfold upsertOn
  split
  · rename_i hany
    rw [find?_updateWhere hmerge]
    cases hfound : rows.find? fun r => decide (key r = k) with
    | none =>
        simp only [List.any_eq_true, decide_eq_true_eq] at hany
        obtain ⟨r, hr, hkey⟩ := hany
        have hne := List.find?_eq_none.mp hfound r hr
        rw [decide_eq_true_eq, hkey] at hne
        rw [if_neg (Ne.symm hne), Option.map_none]
    | some r =>
        have hkey : key r = k := by simpa using List.find?_some hfound
        by_cases hk : k = key new
        · rw [if_pos hk, Option.map_some, Option.map_some, if_pos (hkey.trans hk), Option.getD_some]
        · rw [if_neg hk, Option.map_some, if_neg (hkey ▸ hk)]
  · rename_i hany
    simp only [List.any_eq_true, decide_eq_true_eq, not_exists, not_and] at hany
    rw [List.find?_append]
    by_cases hk : k = key new
    · subst hk
      have hnone : (rows.find? fun r => key r = key new) = none := by
        rw [List.find?_eq_none]
        simpa using hany
      simp [hnone]
    · simp only [List.find?_singleton, Ne.symm hk, decide_false, if_neg hk]
      simp

theorem filter_upsertOn_of_apart {q : ρ → Bool} (hnew : q new = false)
    (h : ∀ r, key r = key new → q r = false ∧ q (merge r) = false) :
    (upsertOn key new merge rows).filter q = rows.filter q := by
  unfold upsertOn
  split
  · apply filter_updateWhere_of_apart
    exact fun r _ hr => h r (of_decide_eq_true hr)
  · rw [List.filter_append, List.filter_cons_of_neg (by simp [hnew]), List.filter_nil,
      List.append_nil]

/-- A new row keeps a column unique when it brings a new value. -/
theorem nodup_map_concat {β : Type*} {g : ρ → β} {rows : List ρ} {new : ρ}
    (hg : (rows.map g).Nodup) (hnew : ∀ r ∈ rows, g r ≠ g new) :
    ((rows ++ [new]).map g).Nodup := by
  rw [List.map_append, List.map_singleton]
  apply List.Nodup.append hg (List.nodup_singleton _)
  rw [List.disjoint_singleton]
  intro hmem
  obtain ⟨r, hr, heq⟩ := List.mem_map.mp hmem
  exact hnew r hr heq

/-- An upsert keeps a column unique when it gives the row of its key a value that no other
row has. -/
theorem nodup_map_upsertOn {β : Type*} {g : ρ → β} (hkeys : (rows.map key).Nodup)
    (hg : (rows.map g).Nodup) (hmerge : ∀ r, key r = key new → g (merge r) = g new)
    (hother : ∀ r ∈ rows, key r ≠ key new → g r ≠ g new) :
    ((upsertOn key new merge rows).map g).Nodup := by
  unfold upsertOn
  split
  · rw [updateWhere, List.map_map]
    refine List.Nodup.map_on ?_ (List.Nodup.of_map _ hkeys)
    intro r hr s hs h
    simp only [Function.comp_apply, decide_eq_true_eq] at h
    by_cases hkr : key r = key new <;> by_cases hks : key s = key new
    · exact List.inj_on_of_nodup_map hkeys hr hs (hkr.trans hks.symm)
    · rw [if_pos hkr, if_neg hks, hmerge r hkr] at h
      exact absurd h.symm (hother s hs hks)
    · rw [if_neg hkr, if_pos hks, hmerge s hks] at h
      exact absurd h (hother r hr hkr)
    · rw [if_neg hkr, if_neg hks] at h
      exact List.inj_on_of_nodup_map hg hr hs h
  · rename_i hany
    simp only [List.any_eq_true, decide_eq_true_eq, not_exists, not_and] at hany
    exact nodup_map_concat hg fun r hr => hother r hr (hany r hr)

end Upsert

theorem filter_map_congr {σ : Type*} {p : ρ → Bool} {q : σ → Bool} {f : ρ → σ} {rows : List ρ}
    (h : ∀ r ∈ rows, q (f r) = p r) : (rows.map f).filter q = (rows.filter p).map f := by
  rw [List.filter_map]
  congr 1
  exact List.filter_congr h

/-! ## `ORDER BY … LIMIT 1` -/

/-- The first row in the order `before`; of equals the one that stands first. -/
def firstBy (before : ρ → ρ → Bool) : List ρ → Option ρ
  | [] => none
  | r :: rows =>
      match firstBy before rows with
      | none => some r
      | some s => some (if before s r then s else r)

theorem mem_of_firstBy {before : ρ → ρ → Bool} {rows : List ρ} {r : ρ}
    (h : firstBy before rows = some r) : r ∈ rows := by
  induction rows generalizing r with
  | nil => cases h
  | cons s rows ih =>
      unfold firstBy at h
      split at h
      · cases h
        exact List.mem_cons_self
      · rename_i t ht
        cases h
        split
        · exact List.mem_cons_of_mem _ (ih ht)
        · exact List.mem_cons_self

theorem firstBy_eq_none {before : ρ → ρ → Bool} {rows : List ρ} :
    firstBy before rows = none ↔ rows = [] := by
  constructor
  · intro h
    cases rows with
    | nil => rfl
    | cons r rows =>
        unfold firstBy at h
        split at h <;> cases h
  · rintro rfl
    rfl

theorem firstBy_map {σ : Type*} {before : ρ → ρ → Bool} {after : σ → σ → Bool} {f : ρ → σ}
    (h : ∀ r s, after (f r) (f s) = before r s) (rows : List ρ) :
    firstBy after (rows.map f) = (firstBy before rows).map f := by
  induction rows with
  | nil => rfl
  | cons r rows ih =>
      rw [List.map_cons, firstBy, firstBy, ih]
      cases firstBy before rows with
      | none => rfl
      | some s =>
          simp only [Option.map_some, h]
          split <;> rfl

/-- In an order that compares any two rows of the list, the first row is before the others. -/
theorem firstBy_eq_some {before : ρ → ρ → Bool} {rows : List ρ}
    (htotal : ∀ r ∈ rows, ∀ s ∈ rows, r ≠ s → before r s = false → before s r = true)
    (htrans : ∀ r s t, before r s = true → before s t = true → before r t = true)
    {r : ρ} (h : firstBy before rows = some r) : ∀ s ∈ rows, s ≠ r → before r s = true := by
  induction rows generalizing r with
  | nil => cases h
  | cons a rows ih =>
      have htotal' : ∀ r ∈ rows, ∀ s ∈ rows, r ≠ s → before r s = false → before s r = true :=
        fun r hr s hs => htotal r (List.mem_cons_of_mem _ hr) s (List.mem_cons_of_mem _ hs)
      unfold firstBy at h
      split at h
      · rename_i hnone
        cases h
        intro s hs hne
        rw [firstBy_eq_none.mp hnone] at hs
        exact absurd (List.mem_singleton.mp hs) hne
      · rename_i t ht
        have htmem := List.mem_cons_of_mem a (mem_of_firstBy ht)
        cases h
        intro s hs hne
        split
        · rename_i hbefore
          rw [if_pos hbefore] at hne
          rcases List.mem_cons.mp hs with rfl | hs
          · exact hbefore
          · exact ih htotal' ht s hs hne
        · rename_i hafter
          rw [if_neg hafter] at hne
          have hs : s ∈ rows := (List.mem_cons.mp hs).resolve_left hne
          by_cases hat : a = t
          · rw [hat] at hne ⊢
            exact ih htotal' ht s hs hne
          · have hbefore : before a t = true :=
              htotal t htmem a List.mem_cons_self (Ne.symm hat) (by simpa using hafter)
            by_cases hst : s = t
            · rw [hst]
              exact hbefore
            · exact htrans a t s hbefore (ih htotal' ht s hs hst)

/-- Under an order that ties may leave undecided, no row is before the first one. -/
theorem not_before_firstBy {before : ρ → ρ → Bool} {rows : List ρ}
    (hirrefl : ∀ r, before r r = false)
    (hasymm : ∀ r s, before r s = true → before s r = false)
    (htrans : ∀ r s t, before s r = false → before t s = false → before t r = false)
    {r : ρ} (h : firstBy before rows = some r) : ∀ s ∈ rows, before s r = false := by
  induction rows generalizing r with
  | nil => cases h
  | cons a rows ih =>
      unfold firstBy at h
      split at h
      · rename_i hnone
        cases h
        intro s hs
        rw [firstBy_eq_none.mp hnone] at hs
        rw [List.mem_singleton.mp hs]
        exact hirrefl _
      · rename_i t ht
        cases h
        intro s hs
        split
        · rename_i hbefore
          rcases List.mem_cons.mp hs with rfl | hs
          · exact hasymm _ _ hbefore
          · exact ih ht s hs
        · rename_i hafter
          rcases List.mem_cons.mp hs with rfl | hs
          · exact hirrefl _
          · exact htrans _ t _ (Bool.eq_false_iff.mpr hafter) (ih ht s hs)

section UpsertMany

variable {ν : Type*} [DecidableEq κ] {key : ρ → κ} {row : ν → ρ} {merge : ν → ρ → ρ}

/-- `INSERT … ON CONFLICT DO UPDATE` for each of `news` in turn. -/
def upsertAll (key : ρ → κ) (row : ν → ρ) (merge : ν → ρ → ρ) (news : List ν)
    (rows : List ρ) : List ρ :=
  news.foldl (fun rows n => upsertOn key (row n) (merge n) rows) rows

theorem mem_upsertAll_of_untouched {news : List ν} {rows : List ρ} {r : ρ} (hr : r ∈ rows)
    (huntouched : ∀ n ∈ news, key r ≠ key (row n)) : r ∈ upsertAll key row merge news rows := by
  induction news generalizing rows with
  | nil => exact hr
  | cons n news ih =>
      refine ih ?_ fun n' hn' => huntouched n' (List.mem_cons_of_mem _ hn')
      exact mem_upsertOn.mpr (.inl ⟨hr, huntouched n List.mem_cons_self⟩)

theorem filter_upsertAll_of_apart {q : ρ → Bool} {news : List ν} {rows : List ρ}
    (h : ∀ n ∈ news, q (row n) = false ∧
      ∀ r, key r = key (row n) → q r = false ∧ q (merge n r) = false) :
    (upsertAll key row merge news rows).filter q = rows.filter q := by
  induction news generalizing rows with
  | nil => rfl
  | cons n news ih =>
      obtain ⟨hnew, hkey⟩ := h n List.mem_cons_self
      calc
        _ = (upsertOn key (row n) (merge n) rows).filter q :=
          ih fun n' hn' => h n' (List.mem_cons_of_mem _ hn')
        _ = rows.filter q := filter_upsertOn_of_apart hnew hkey

section View

variable {β : Type*} {view : ρ → β}

/-- A merge keeps the key of the row it finds and leaves it looking like the new row. -/
def MergesTo (key : ρ → κ) (view : ρ → β) (row : ν → ρ) (merge : ν → ρ → ρ) : Prop :=
  ∀ n r, key r = key (row n) → key (merge n r) = key (row n) ∧ view (merge n r) = view (row n)

/-- A row after the upserts is an old row of another key, or looks like a new one. -/
theorem view_of_mem_upsertAll (hmerge : MergesTo key view row merge) {news : List ν}
    {rows : List ρ} {r : ρ} (hr : r ∈ upsertAll key row merge news rows) :
    (r ∈ rows ∧ ∀ n ∈ news, key r ≠ key (row n)) ∨
      ∃ n ∈ news, key r = key (row n) ∧ view r = view (row n) := by
  induction news generalizing rows with
  | nil => exact .inl ⟨hr, by simp⟩
  | cons n news ih =>
      rcases ih hr with ⟨hr, huntouched⟩ | ⟨n', hn', hview⟩
      · rcases mem_upsertOn.mp hr with ⟨hr, hkey⟩ | ⟨r₀, -, hkey, rfl⟩ | ⟨rfl, -⟩
        · refine .inl ⟨hr, ?_⟩
          intro n' hn'
          rcases List.mem_cons.mp hn' with rfl | hn'
          · exact hkey
          · exact huntouched n' hn'
        · exact .inr ⟨n, List.mem_cons_self, hmerge n r₀ hkey⟩
        · exact .inr ⟨n, List.mem_cons_self, rfl, rfl⟩
      · exact .inr ⟨n', List.mem_cons_of_mem _ hn', hview⟩

/-- Each new row has its image in the table when new rows of one key look the same. -/
theorem exists_mem_upsertAll (hmerge : MergesTo key view row merge) {news : List ν}
    {rows : List ρ} (hsame : ∀ m ∈ news, ∀ n ∈ news, key (row m) = key (row n) →
      view (row m) = view (row n)) {n : ν} (hn : n ∈ news) :
    ∃ r ∈ upsertAll key row merge news rows, key r = key (row n) ∧ view r = view (row n) := by
  induction news generalizing rows n with
  | nil => cases hn
  | cons m news ih =>
      have hsame' : ∀ m ∈ news, ∀ n ∈ news, key (row m) = key (row n) →
          view (row m) = view (row n) :=
        fun a ha b hb => hsame a (List.mem_cons_of_mem _ ha) b (List.mem_cons_of_mem _ hb)
      rcases List.mem_cons.mp hn with rfl | hn
      · by_cases hlater : ∃ n' ∈ news, key (row n') = key (row n)
        · obtain ⟨n', hn', hkey⟩ := hlater
          obtain ⟨r, hr, hrkey, hrview⟩ := @ih (upsertOn key (row n) (merge n) rows) hsame' n' hn'
          refine ⟨r, hr, hrkey.trans hkey, hrview.trans ?_⟩
          exact hsame n' (List.mem_cons_of_mem _ hn') n List.mem_cons_self hkey
        · have hstays : ∀ r ∈ upsertOn key (row n) (merge n) rows, key r = key (row n) →
              r ∈ upsertAll key row merge (n :: news) rows := by
            intro r hr hkey
            have huntouched : ∀ n' ∈ news, key r ≠ key (row n') :=
              fun n' hn' heq => hlater ⟨n', hn', heq.symm.trans hkey⟩
            change r ∈ upsertAll key row merge news (upsertOn key (row n) (merge n) rows)
            exact mem_upsertAll_of_untouched hr huntouched
          by_cases hfree : ∀ r₀ ∈ rows, key r₀ ≠ key (row n)
          · exact ⟨row n, hstays _ (mem_upsertOn.mpr (.inr (.inr ⟨rfl, hfree⟩))) rfl, rfl, rfl⟩
          · simp only [not_forall, not_not] at hfree
            obtain ⟨r₀, hr₀, hkey⟩ := hfree
            obtain ⟨hmkey, hmview⟩ := hmerge n r₀ hkey
            refine ⟨merge n r₀, hstays _ ?_ hmkey, hmkey, hmview⟩
            exact mem_upsertOn.mpr (.inr (.inl ⟨r₀, hr₀, hkey, rfl⟩))
      · exact ih hsame' hn

end View

end UpsertMany

end ExternalStorage.Library.Table
