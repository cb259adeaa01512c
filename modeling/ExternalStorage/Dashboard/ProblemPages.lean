import ExternalStorage.Model.Catalog
import ExternalStorage.Model.Lists
import Mathlib

/-!
# Reading the problem list to its end

The cursor of `listProblems` is a text.  It gives back a text column as it was, a timestamp
without its fractions, if the database takes the text at all, and for a `NULL` the empty
text, which is compared as a value; a row with a `NULL` is never behind a cursor.
-/

namespace ExternalStorage.Dashboard

open ExternalStorage.Model Library.Paging Library.Cursors

variable {κ : Type*} [LinearOrder κ]

/-- What the list relies on: the collation tells texts apart and begins with the empty text, and
what the database reads of the text of a date is the date without fractions of a second. -/
structure ReadsTexts (collate : String → κ) (dateText : Timestamp → String)
    (castTimestamp : String → Option Timestamp) : Prop where
  injective : Function.Injective collate
  least : ∀ text, collate "" ≤ collate text
  seconds : ∀ t t', castTimestamp (dateText t) = some t' → t' = t / 1000000 * 1000000

/-- Following the list ends, and gives each matching problem once. -/
def ListsProblems (collate : String → κ) (dateText : Timestamp → String)
    (castTimestamp : String → Option Timestamp) (ilike : String → String → Bool)
    (q : ProblemQuery) (limit : Nat) (problems : List ProblemRow) : Prop :=
  ∃ fuel items, followList (listProblems collate dateText castTimestamp ilike q limit problems)
    fuel none = some items ∧ items.Perm (problemsOf ilike q problems)

/-- A page that ends with a problem without an owner is followed by the empty owners of smaller
ids only. -/
def OwnerFollows (collate : String → κ) (r s : ProblemRow) : Prop :=
  r.ownerOrganization = none →
    s.ownerOrganization = some "" ∧ collate s.externalId < collate r.externalId

/-- The database takes the date, and it lies before the next row and not before the last. -/
def DateFollows (collate : String → κ) (dateText : Timestamp → String)
    (castTimestamp : String → Option Timestamp) (order : SortOrder) (r s : ProblemRow) : Prop :=
  match castTimestamp (dateText r.observedAt), order with
  | none, _ => False
  | some t, .asc => t = r.observedAt
  | some t, .desc =>
      s.observedAt < t ∨ s.observedAt = t ∧ collate s.externalId < collate r.externalId

/-- Texts that are never `NULL` page right.  Ascending owners do without `NULL`, or on one page,
and descending ones if the first page does not end with a `NULL`. -/
def PagesRight (collate : String → κ) (dateText : Timestamp → String)
    (castTimestamp : String → Option Timestamp) (order : SortOrder) (column : SortColumn)
    (limit : Nat) (rows : List ProblemRow) : Prop :=
  match column, order with
  | .externalId, _ | .code, _ => True
  | .ownerOrganization, .asc =>
      (∀ p ∈ rows, p.ownerOrganization ≠ none) ∨ rows.length ≤ limit
  | .ownerOrganization, .desc =>
      AtPageEnds (OwnerFollows collate) limit (problemsInOrder collate .desc .ownerOrganization rows)
  | .observedAt, order =>
      AtPageEnds (DateFollows collate dateText castTimestamp order) limit
        (problemsInOrder collate order .observedAt rows)

/-! ## The list as a reading of pages -/

section Reading

variable (collate : String → κ) (dateText : Timestamp → String)
  (castTimestamp : String → Option Timestamp)

def cursorRead (column : SortColumn) (p : ProblemRow) : Option ((κ ⊕ₗ Timestamp) × String) :=
  (column.cast collate castTimestamp (column.text dateText p)).map fun value =>
    (value, p.externalId)

def beyondRead (order : SortOrder) (column : SortColumn) (c : (κ ⊕ₗ Timestamp) × String)
    (p : ProblemRow) : Bool :=
  problemBeyond collate order column c.1 c.2 p

abbrev descKey (column : SortColumn) (p : ProblemRow) : (WithTop (κ ⊕ₗ Timestamp) ×ₗ κ)ᵒᵈ :=
  OrderDual.toDual (problemKey collate column p)

variable {collate dateText castTimestamp}
variable {ilike : String → String → Bool} {q : ProblemQuery} {limit : Nat}
  {problems : List ProblemRow}

theorem filter_selected_none {order : SortOrder} {column : SortColumn} (rows : List ProblemRow) :
    rows.filter (selected (beyondRead collate order column) none) = rows :=
  List.filter_eq_self.mpr fun _ _ => rfl

theorem followList_asc (horder : q.order = .asc) (fuel : Nat) :
    followList (listProblems collate dateText castTimestamp ilike q limit problems) fuel none =
      readPages (problemKey collate (mapSortColumn q.sort))
        (beyondRead collate .asc (mapSortColumn q.sort))
        (cursorRead collate dateText castTimestamp (mapSortColumn q.sort)) (min limit 200)
        (problemsOf ilike q problems) fuel none := by
  apply followList_eq_readPages
    (fun p => (⟨(mapSortColumn q.sort).text dateText p, p.externalId⟩ : ProblemCursor))
    (fun c => ((mapSortColumn q.sort).cast collate castTimestamp c.value).map fun value =>
      (value, c.id))
  · rw [filter_selected_none, listProblems, horder]
    rfl
  · intro c
    rw [listProblems, horder, Option.map_map, Option.map_map]
    rfl

theorem followList_desc (horder : q.order = .desc) (fuel : Nat) :
    followList (listProblems collate dateText castTimestamp ilike q limit problems) fuel none =
      readPages (descKey collate (mapSortColumn q.sort))
        (beyondRead collate .desc (mapSortColumn q.sort))
        (cursorRead collate dateText castTimestamp (mapSortColumn q.sort)) (min limit 200)
        (problemsOf ilike q problems) fuel none := by
  apply followList_eq_readPages
    (fun p => (⟨(mapSortColumn q.sort).text dateText p, p.externalId⟩ : ProblemCursor))
    (fun c => ((mapSortColumn q.sort).cast collate castTimestamp c.value).map fun value =>
      (value, c.id))
  · rw [filter_selected_none, listProblems, horder]
    rfl
  · intro c
    rw [listProblems, horder, Option.map_map, Option.map_map]
    rfl

end Reading

/-! ## The keys and the cursors -/

section Keys

variable {collate : String → κ} {dateText : Timestamp → String}
  {castTimestamp : String → Option Timestamp} {column : SortColumn}

omit [LinearOrder κ] in
theorem problemKeys_nodup (column : SortColumn) (hinj : Function.Injective collate) {rows : List ProblemRow}
    (hids : (rows.map ProblemRow.externalId).Nodup) :
    (rows.map (problemKey collate column)).Nodup := by
  refine List.Nodup.map_on ?_ (List.Nodup.of_map _ hids)
  intro p hp p' hp' hkey
  have hid : collate p.externalId = collate p'.externalId :=
    congrArg (fun k => (ofLex k).2) hkey
  exact List.inj_on_of_nodup_map hids hp hp' (hinj hid)

theorem problemKey_lt {p p' : ProblemRow} {v v' : κ ⊕ₗ Timestamp}
    (hv : column.value collate p = some v) (hv' : column.value collate p' = some v') :
    problemKey collate column p < problemKey collate column p' ↔
      toLex (v, collate p.externalId) < toLex (v', collate p'.externalId) := by
  have hcoe : (column.value collate p : WithTop (κ ⊕ₗ Timestamp)) = (v : WithTop _) := hv
  have hcoe' : (column.value collate p' : WithTop (κ ⊕ₗ Timestamp)) = (v' : WithTop _) := hv'
  rw [problemKey, problemKey, Prod.Lex.toLex_lt_toLex, Prod.Lex.toLex_lt_toLex]
  dsimp only
  rw [hcoe, hcoe', WithTop.coe_lt_coe, WithTop.coe_inj]

theorem problemKey_lt_null {p p' : ProblemRow} {v : κ ⊕ₗ Timestamp}
    (hv : column.value collate p = some v) (hv' : column.value collate p' = none) :
    problemKey collate column p < problemKey collate column p' := by
  have hcoe : (column.value collate p : WithTop (κ ⊕ₗ Timestamp)) = (v : WithTop _) := hv
  have htop : (column.value collate p' : WithTop (κ ⊕ₗ Timestamp)) = (⊤ : WithTop _) := hv'
  rw [problemKey, problemKey, Prod.Lex.toLex_lt_toLex]
  left
  dsimp only
  rw [hcoe, htop]
  exact WithTop.coe_lt_top v

theorem value_of_lt {p p' : ProblemRow} {v : κ ⊕ₗ Timestamp}
    (hlt : problemKey collate column p' < problemKey collate column p)
    (hv : column.value collate p = some v) : ∃ v', column.value collate p' = some v' := by
  rw [← Option.ne_none_iff_exists']
  intro hnull
  exact lt_asymm hlt (problemKey_lt_null hv hnull)

theorem beyondRead_asc {c : (κ ⊕ₗ Timestamp) × String} {p : ProblemRow} :
    beyondRead collate .asc column c p = true ↔
      ∃ v, column.value collate p = some v ∧
        toLex (c.1, collate c.2) < toLex (v, collate p.externalId) := by
  unfold beyondRead problemBeyond
  cases column.value collate p with
  | none => simp
  | some v =>
      simp only [Prod.Lex.toLex_lt_toLex, Bool.or_eq_true, Bool.and_eq_true, decide_eq_true_eq,
        Option.some.injEq, exists_eq_left']

theorem beyondRead_desc {c : (κ ⊕ₗ Timestamp) × String} {p : ProblemRow} :
    beyondRead collate .desc column c p = true ↔
      ∃ v, column.value collate p = some v ∧
        toLex (v, collate p.externalId) < toLex (c.1, collate c.2) := by
  unfold beyondRead problemBeyond
  cases column.value collate p with
  | none => simp
  | some v =>
      simp only [Prod.Lex.toLex_lt_toLex, Bool.or_eq_true, Bool.and_eq_true, decide_eq_true_eq,
        Option.some.injEq, exists_eq_left']

theorem closed_asc {rows : List ProblemRow}
    (hvalues : ∀ p ∈ rows, ∃ v, column.value collate p = some v) :
    Closed (problemKey collate column) (beyondRead collate .asc column)
      (cursorRead collate dateText castTimestamp column) rows := by
  intro r _ c _ s _ t ht hlt hselected
  obtain ⟨v, hv, hbehind⟩ := beyondRead_asc.mp hselected
  obtain ⟨w, hw⟩ := hvalues t ht
  exact beyondRead_asc.mpr ⟨w, hw, hbehind.trans ((problemKey_lt hv hw).mp hlt)⟩

theorem closed_desc {rows : List ProblemRow} :
    Closed (descKey collate column) (beyondRead collate .desc column)
      (cursorRead collate dateText castTimestamp column) rows := by
  intro r _ c _ s _ t _ hlt hselected
  obtain ⟨v, hv, hbehind⟩ := beyondRead_desc.mp hselected
  have hlt' : problemKey collate column t < problemKey collate column s := hlt
  obtain ⟨w, hw⟩ := value_of_lt hlt' hv
  exact beyondRead_desc.mpr ⟨w, hw, ((problemKey_lt hw hv).mp hlt').trans hbehind⟩

omit [LinearOrder κ] in
theorem cursorRead_text (dateText : Timestamp → String)
    (castTimestamp : String → Option Timestamp) (hcolumn : column ≠ .observedAt) {p : ProblemRow} {v : κ ⊕ₗ Timestamp}
    (hv : column.value collate p = some v) :
    cursorRead collate dateText castTimestamp column p = some (v, p.externalId) := by
  cases column with
  | externalId | code =>
      obtain rfl := Option.some.inj hv
      rfl
  | observedAt => exact absurd rfl hcolumn
  | ownerOrganization =>
      obtain ⟨owner, howner, rfl⟩ := Option.map_eq_some_iff.mp hv
      rw [cursorRead, SortColumn.text, howner]
      rfl

omit [LinearOrder κ] in
theorem cursorRead_null {p : ProblemRow} (hnull : p.ownerOrganization = none) :
    cursorRead collate dateText castTimestamp .ownerOrganization p =
      some (toLex (.inl (collate "")), p.externalId) := by
  rw [cursorRead, SortColumn.text, hnull]
  rfl

omit [LinearOrder κ] in
theorem cursorRead_date (p : ProblemRow) :
    cursorRead collate dateText castTimestamp .observedAt p =
      (castTimestamp (dateText p.observedAt)).map fun t => (toLex (.inr t), p.externalId) := by
  rw [cursorRead, SortColumn.cast, Option.map_map]
  rfl

omit [LinearOrder κ] in
theorem value_eq_none {p : ProblemRow} :
    column.value collate p = none ↔ column = .ownerOrganization ∧ p.ownerOrganization = none := by
  cases column <;> simp [SortColumn.value]

omit [LinearOrder κ] in
theorem value_date (p : ProblemRow) :
    SortColumn.observedAt.value collate p = some (toLex (.inr p.observedAt)) := rfl

end Keys

/-! ## When each sort is complete -/

section Sorts

variable {collate : String → κ} {dateText : Timestamp → String}
  {castTimestamp : String → Option Timestamp} {column : SortColumn} {rows : List ProblemRow}
  {limit : Nat}

theorem reads_text_asc (hinj : Function.Injective collate)
    (hids : (rows.map ProblemRow.externalId).Nodup) (hlimit : 0 < limit)
    (hcolumn : column ≠ .observedAt) (hvalues : ∀ p ∈ rows, ∃ v, column.value collate p = some v) :
    ReadsOnce (problemKey collate column) (beyondRead collate .asc column)
      (cursorRead collate dateText castTimestamp column) limit rows := by
  have hselects : ∀ r ∈ rows, ∀ c ∈ cursorRead collate dateText castTimestamp column r, ∀ s ∈ rows,
      beyondRead collate .asc column c s = true ↔
        problemKey collate column r < problemKey collate column s := by
    intro r hr c hc s hs
    obtain ⟨v, hv⟩ := hvalues r hr
    obtain ⟨w, hw⟩ := hvalues s hs
    rw [cursorRead_text _ _ hcolumn hv] at hc
    obtain rfl := Option.some.inj hc
    rw [beyondRead_asc, problemKey_lt hv hw]
    constructor
    · rintro ⟨w', hw', hlt⟩
      obtain rfl := Option.some.inj (hw.symm.trans hw')
      exact hlt
    · exact fun hlt => ⟨w, hw, hlt⟩
  have hkeys := problemKeys_nodup column hinj hids
  rw [readsOnce_iff hkeys hlimit (closed_asc hvalues)
    (.inl fun r hr c hc s hs => (hselects r hr c hc s hs).mp)]
  rw [atPageEnds_congr (Q := fun _ _ => True) (pairwise_lt_inOrder hkeys)]
  · exact fun _ _ _ => trivial
  · intro r hr s hs hlt
    have hr' := (perm_inOrder rows).mem_iff.mp hr
    have hs' := (perm_inOrder rows).mem_iff.mp hs
    obtain ⟨v, hv⟩ := hvalues r hr'
    have hc := cursorRead_text dateText castTimestamp hcolumn hv
    refine iff_true_intro ⟨_, hc, ?_, (hselects r hr' _ hc s hs').mpr hlt⟩
    rw [← Bool.not_eq_true, hselects r hr' _ hc r hr']
    exact lt_irrefl _

theorem reads_text_desc (htexts : ReadsTexts collate dateText castTimestamp)
    (hids : (rows.map ProblemRow.externalId).Nodup) (hlimit : 0 < limit)
    (hcolumn : column ≠ .observedAt) :
    ReadsOnce (descKey collate column) (beyondRead collate .desc column)
        (cursorRead collate dateText castTimestamp column) limit rows ↔
      AtPageEnds (fun r s => column.value collate r = none →
          column.value collate s = some (toLex (.inl (collate ""))) ∧
            collate s.externalId < collate r.externalId) limit
        (inOrder (descKey collate column) rows) := by
  have hkeys : (rows.map (descKey collate column)).Nodup := problemKeys_nodup column htexts.injective hids
  have hvalue : ∀ r, ∀ v, column.value collate r = some v →
      ∀ c ∈ cursorRead collate dateText castTimestamp column r, ∀ s,
        (beyondRead collate .desc column c s = true ↔
          ∃ w, column.value collate s = some w ∧
            problemKey collate column s < problemKey collate column r) := by
    intro r v hv c hc s
    rw [cursorRead_text _ _ hcolumn hv] at hc
    obtain rfl := Option.some.inj hc
    rw [beyondRead_desc]
    constructor
    · rintro ⟨w, hw, hlt⟩
      exact ⟨w, hw, (problemKey_lt hw hv).mpr hlt⟩
    · rintro ⟨w, hw, hlt⟩
      exact ⟨w, hw, (problemKey_lt hw hv).mp hlt⟩
  have hnull : ∀ r, column.value collate r = none →
      ∀ c ∈ cursorRead collate dateText castTimestamp column r, ∀ s,
        (beyondRead collate .desc column c s = true ↔
          column.value collate s = some (toLex (.inl (collate ""))) ∧
            collate s.externalId < collate r.externalId) := by
    intro r hr c hc s
    obtain ⟨rfl, hnone⟩ := value_eq_none.mp hr
    rw [cursorRead_null hnone] at hc
    obtain rfl := Option.some.inj hc
    rw [beyondRead_desc]
    constructor
    · rintro ⟨w, hw, hlt⟩
      obtain ⟨owner, -, rfl⟩ := Option.map_eq_some_iff.mp hw
      rcases Prod.Lex.toLex_lt_toLex.mp hlt with hlt | ⟨heq, hlt⟩
      · exact absurd (Sum.Lex.inl_lt_inl_iff.mp hlt) (not_lt.mpr (htexts.least owner))
      · exact ⟨hw.trans (congrArg some heq), hlt⟩
    · rintro ⟨hw, hlt⟩
      exact ⟨_, hw, Prod.Lex.toLex_lt_toLex.mpr (.inr ⟨rfl, hlt⟩)⟩
  have hforward : Forward (descKey collate column) (beyondRead collate .desc column)
      (cursorRead collate dateText castTimestamp column) rows := by
    intro r _ c hc s _ hselected
    show problemKey collate column s < problemKey collate column r
    cases hv : column.value collate r with
    | none => exact problemKey_lt_null ((hnull r hv c hc s).mp hselected).1 hv
    | some v => exact ((hvalue r v hv c hc s).mp hselected).choose_spec.2
  rw [readsOnce_iff hkeys hlimit closed_desc (.inl hforward)]
  apply atPageEnds_congr (pairwise_lt_inOrder hkeys)
  intro r hr s hs hlt
  have hlt' : problemKey collate column s < problemKey collate column r := hlt
  cases hv : column.value collate r with
  | none =>
      obtain ⟨c, hc⟩ : ∃ c, c ∈ cursorRead collate dateText castTimestamp column r := by
        obtain ⟨rfl, hnone⟩ := value_eq_none.mp hv
        exact ⟨_, cursorRead_null hnone⟩
      constructor
      · rintro ⟨c', hc', -, hnext⟩ _
        exact (hnull r hv c' hc' s).mp hnext
      · intro h
        refine ⟨c, hc, ?_, (hnull r hv c hc s).mpr (h rfl)⟩
        rw [← Bool.not_eq_true, hnull r hv c hc r]
        rintro ⟨hself, -⟩
        cases hv.symm.trans hself
  | some v =>
      have hc := cursorRead_text dateText castTimestamp hcolumn hv
      obtain ⟨w, hw⟩ := value_of_lt hlt' hv
      refine iff_of_true ⟨_, hc, ?_, (hvalue r v hv _ hc s).mpr ⟨w, hw, hlt'⟩⟩ nofun
      rw [← Bool.not_eq_true, hvalue r v hv _ hc r]
      rintro ⟨-, -, hself⟩
      exact lt_irrefl _ hself

theorem date_lt {t t' : Timestamp} {x y : κ} :
    toLex ((toLex (.inr t) : κ ⊕ₗ Timestamp), x) < toLex ((toLex (.inr t') : κ ⊕ₗ Timestamp), y) ↔
      t < t' ∨ t = t' ∧ x < y := by
  rw [Prod.Lex.toLex_lt_toLex]
  dsimp only
  rw [Sum.Lex.inr_lt_inr_iff, toLex_inj, Sum.inr.injEq]

theorem beyond_date_asc {t : Timestamp} {id : String} {p : ProblemRow} :
    beyondRead collate .asc .observedAt (toLex (.inr t), id) p = true ↔
      t < p.observedAt ∨ t = p.observedAt ∧ collate id < collate p.externalId := by
  rw [beyondRead_asc]
  simp only [value_date, Option.some.injEq, exists_eq_left', date_lt]

theorem beyond_date_desc {t : Timestamp} {id : String} {p : ProblemRow} :
    beyondRead collate .desc .observedAt (toLex (.inr t), id) p = true ↔
      p.observedAt < t ∨ p.observedAt = t ∧ collate p.externalId < collate id := by
  rw [beyondRead_desc]
  simp only [value_date, Option.some.injEq, exists_eq_left', date_lt]

theorem date_key_lt {p p' : ProblemRow} :
    problemKey collate .observedAt p < problemKey collate .observedAt p' ↔
      p.observedAt < p'.observedAt ∨
        p.observedAt = p'.observedAt ∧ collate p.externalId < collate p'.externalId :=
  (problemKey_lt (value_date p) (value_date p')).trans date_lt

theorem cursorRead_le (htexts : ReadsTexts collate dateText castTimestamp) {r : ProblemRow}
    {c : (κ ⊕ₗ Timestamp) × String}
    (hc : c ∈ cursorRead collate dateText castTimestamp .observedAt r) :
    ∃ t, castTimestamp (dateText r.observedAt) = some t ∧ t ≤ r.observedAt ∧
      c = (toLex (.inr t), r.externalId) := by
  rw [cursorRead_date] at hc
  obtain ⟨t, ht, rfl⟩ := Option.map_eq_some_iff.mp hc
  refine ⟨t, ht, ?_, rfl⟩
  rw [htexts.seconds _ _ ht]
  exact Int.ediv_mul_le _ (by decide)

theorem reads_date_asc (htexts : ReadsTexts collate dateText castTimestamp)
    (hids : (rows.map ProblemRow.externalId).Nodup) (hlimit : 0 < limit) :
    ReadsOnce (problemKey collate .observedAt) (beyondRead collate .asc .observedAt)
        (cursorRead collate dateText castTimestamp .observedAt) limit rows ↔
      AtPageEnds (DateFollows collate dateText castTimestamp .asc) limit
        (inOrder (problemKey collate .observedAt) rows) := by
  have hkeys := problemKeys_nodup .observedAt htexts.injective hids
  have hcovering : Covering (problemKey collate .observedAt) (beyondRead collate .asc .observedAt)
      (cursorRead collate dateText castTimestamp .observedAt) rows := by
    intro r _ c hc s _ hlt
    obtain ⟨t, -, hle, rfl⟩ := cursorRead_le htexts hc
    rw [beyond_date_asc]
    rcases date_key_lt.mp hlt with hlt | ⟨heq, hlt⟩
    · exact .inl (hle.trans_lt hlt)
    · rcases lt_or_eq_of_le hle with hlt' | heq'
      · exact .inl (heq ▸ hlt')
      · exact .inr ⟨heq'.trans heq, hlt⟩
  rw [readsOnce_iff hkeys hlimit (closed_asc fun p _ => ⟨_, value_date p⟩) (.inr hcovering)]
  apply atPageEnds_congr (pairwise_lt_inOrder hkeys)
  intro r hr s hs hlt
  have hr' := (perm_inOrder rows).mem_iff.mp hr
  have hs' := (perm_inOrder rows).mem_iff.mp hs
  unfold DateFollows
  constructor
  · rintro ⟨c, hc, hpassed, -⟩
    obtain ⟨t, ht, hle, rfl⟩ := cursorRead_le htexts hc
    rw [← Bool.not_eq_true, beyond_date_asc, not_or] at hpassed
    rw [ht]
    exact le_antisymm hle (not_lt.mp hpassed.1)
  · intro h
    cases ht : castTimestamp (dateText r.observedAt) with
    | none =>
        rw [ht] at h
        cases h
    | some t =>
        rw [ht] at h
        dsimp only at h
        subst h
        have hc : (toLex (.inr r.observedAt), r.externalId) ∈
            cursorRead collate dateText castTimestamp .observedAt r := by
          rw [cursorRead_date, ht]
          rfl
        refine ⟨_, hc, ?_, hcovering r hr' _ hc s hs' hlt⟩
        rw [← Bool.not_eq_true, beyond_date_asc, not_or]
        exact ⟨lt_irrefl _, fun h => lt_irrefl _ h.2⟩

theorem reads_date_desc (htexts : ReadsTexts collate dateText castTimestamp)
    (hids : (rows.map ProblemRow.externalId).Nodup) (hlimit : 0 < limit) :
    ReadsOnce (descKey collate .observedAt) (beyondRead collate .desc .observedAt)
        (cursorRead collate dateText castTimestamp .observedAt) limit rows ↔
      AtPageEnds (DateFollows collate dateText castTimestamp .desc) limit
        (inOrder (descKey collate .observedAt) rows) := by
  have hkeys : (rows.map (descKey collate .observedAt)).Nodup :=
    problemKeys_nodup .observedAt htexts.injective hids
  have hforward : Forward (descKey collate .observedAt) (beyondRead collate .desc .observedAt)
      (cursorRead collate dateText castTimestamp .observedAt) rows := by
    intro r _ c hc s _ hselected
    show problemKey collate .observedAt s < problemKey collate .observedAt r
    obtain ⟨t, -, hle, rfl⟩ := cursorRead_le htexts hc
    rw [date_key_lt]
    rcases beyond_date_desc.mp hselected with hlt | ⟨heq, hlt⟩
    · exact .inl (hlt.trans_le hle)
    · rcases lt_or_eq_of_le hle with hlt' | heq'
      · exact .inl (heq ▸ hlt')
      · exact .inr ⟨heq.trans heq', hlt⟩
  rw [readsOnce_iff hkeys hlimit closed_desc (.inl hforward)]
  apply atPageEnds_congr (pairwise_lt_inOrder hkeys)
  intro r hr s hs _
  have hr' := (perm_inOrder rows).mem_iff.mp hr
  unfold DateFollows
  constructor
  · rintro ⟨c, hc, -, hnext⟩
    obtain ⟨t, ht, -, rfl⟩ := cursorRead_le htexts hc
    rw [ht]
    exact beyond_date_desc.mp hnext
  · intro h
    cases ht : castTimestamp (dateText r.observedAt) with
    | none =>
        rw [ht] at h
        cases h
    | some t =>
        rw [ht] at h
        have hc : (toLex (.inr t), r.externalId) ∈
            cursorRead collate dateText castTimestamp .observedAt r := by
          rw [cursorRead_date, ht]
          rfl
        refine ⟨_, hc, ?_, beyond_date_desc.mpr h⟩
        rw [← Bool.not_eq_true]
        exact fun hself => lt_irrefl _ (hforward r hr' _ hc r hr' hself)

theorem reads_null_asc (htexts : ReadsTexts collate dateText castTimestamp)
    (hids : (rows.map ProblemRow.externalId).Nodup) (hlimit : 0 < limit) {p : ProblemRow}
    (hp : p ∈ rows) (hnull : p.ownerOrganization = none) :
    ReadsOnce (problemKey collate .ownerOrganization) (beyondRead collate .asc .ownerOrganization)
        (cursorRead collate dateText castTimestamp .ownerOrganization) limit rows ↔
      rows.length ≤ limit := by
  have hkeys := problemKeys_nodup .ownerOrganization htexts.injective hids
  constructor
  · rintro ⟨fuel, items, hread, hperm⟩
    by_contra hlong
    -- The last row of all is a `NULL` too, and the first page does not reach it.
    have hne : inOrder (problemKey collate .ownerOrganization) rows ≠ [] :=
      List.ne_nil_of_mem ((perm_inOrder rows).mem_iff.mpr hp)
    obtain ⟨front, l, hlast⟩ := (List.eq_nil_or_concat _).resolve_left hne
    rw [List.concat_eq_append] at hlast
    have hl : l ∈ rows := mem_of_split hlast
    have hsorted := pairwise_lt_inOrder hkeys
    rw [hlast, List.pairwise_append] at hsorted
    have hlnull : SortColumn.ownerOrganization.value collate l = none := by
      have hpvalue : SortColumn.ownerOrganization.value collate p = none :=
        value_eq_none.mpr ⟨rfl, hnull⟩
      have hp' : p ∈ inOrder (problemKey collate .ownerOrganization) rows :=
        (perm_inOrder rows).mem_iff.mpr hp
      rw [hlast, List.mem_append] at hp'
      rcases hp' with hp' | hp'
      · by_contra hvalue
        obtain ⟨v, hv⟩ := Option.ne_none_iff_exists'.mp hvalue
        obtain ⟨w, hw⟩ := value_of_lt (hsorted.2.2 p hp' l (List.mem_singleton_self l)) hv
        cases hpvalue.symm.trans hw
      · rw [← List.mem_singleton.mp hp']
        exact hpvalue
    have hnever : ∀ c, beyondRead collate .asc .ownerOrganization c l = false := by
      intro c
      rw [← Bool.not_eq_true, beyondRead_asc]
      rintro ⟨v, hv, -⟩
      cases hlnull.symm.trans hv
    have hfirst := (mem_readPages_of_unselected hkeys hlimit hread hnever
      (hperm.mem_iff.mpr hl)).2
    have hlength : limit ≤ front.length := by
      have hlengths : (inOrder (problemKey collate .ownerOrganization) rows).length = rows.length :=
        (perm_inOrder rows).length_eq
      rw [hlast, List.length_append, List.length_singleton] at hlengths
      omega
    rw [hlast, List.take_append_of_le_length hlength] at hfirst
    exact lt_irrefl _ (hsorted.2.2 l (List.mem_of_mem_take hfirst) l (List.mem_singleton_self l))
  · intro hshort
    refine ⟨1, _, readPages_last hkeys 0 ?_, ?_⟩
    · rw [ahead_none, (perm_inOrder rows).length_eq]
      exact hshort
    · rw [ahead_none]
      exact perm_inOrder rows

end Sorts

/-! ## The list of problems -/

section Listing

variable {collate : String → κ} {dateText : Timestamp → String}
  {castTimestamp : String → Option Timestamp} {ilike : String → String → Bool} {q : ProblemQuery}
  {limit : Nat} {problems : List ProblemRow}

theorem listsProblems_asc (horder : q.order = .asc) :
    ListsProblems collate dateText castTimestamp ilike q limit problems ↔
      ReadsOnce (problemKey collate (mapSortColumn q.sort))
        (beyondRead collate .asc (mapSortColumn q.sort))
        (cursorRead collate dateText castTimestamp (mapSortColumn q.sort)) (min limit 200)
        (problemsOf ilike q problems) := by
  unfold ListsProblems ReadsOnce
  simp only [followList_asc horder]

theorem listsProblems_desc (horder : q.order = .desc) :
    ListsProblems collate dateText castTimestamp ilike q limit problems ↔
      ReadsOnce (descKey collate (mapSortColumn q.sort))
        (beyondRead collate .desc (mapSortColumn q.sort))
        (cursorRead collate dateText castTimestamp (mapSortColumn q.sort)) (min limit 200)
        (problemsOf ilike q problems) := by
  unfold ListsProblems ReadsOnce
  simp only [followList_desc horder]

/-- The problem list gives each matching problem once exactly when its pages end right. -/
theorem problems_listed_iff (htexts : ReadsTexts collate dateText castTimestamp)
    (hids : (problems.map ProblemRow.externalId).Nodup) (hlimit : 0 < limit) :
    ListsProblems collate dateText castTimestamp ilike q limit problems ↔
      PagesRight collate dateText castTimestamp q.order (mapSortColumn q.sort) (min limit 200)
        (problemsOf ilike q problems) := by
  have hids' : ((problemsOf ilike q problems).map ProblemRow.externalId).Nodup :=
    hids.sublist (List.Sublist.map _ List.filter_sublist)
  have hpositive : 0 < min limit 200 := by omega
  cases horder : q.order with
  | asc =>
      rw [listsProblems_asc horder]
      cases mapSortColumn q.sort with
      | externalId | code =>
          refine iff_of_true ?_ trivial
          exact reads_text_asc htexts.injective hids' hpositive SortColumn.noConfusion
            fun p _ => ⟨_, rfl⟩
      | observedAt => exact reads_date_asc htexts hids' hpositive
      | ownerOrganization =>
          by_cases hnulls : ∀ p ∈ problemsOf ilike q problems, p.ownerOrganization ≠ none
          · refine iff_of_true ?_ (.inl hnulls)
            apply reads_text_asc htexts.injective hids' hpositive SortColumn.noConfusion
            intro p hp
            rw [← Option.ne_none_iff_exists']
            intro hnone
            exact hnulls p hp (value_eq_none.mp hnone).2
          · refine Iff.trans ?_ (or_iff_right hnulls).symm
            simp only [not_forall, not_not] at hnulls
            obtain ⟨p, hp, hnull⟩ := hnulls
            exact reads_null_asc htexts hids' hpositive hp hnull
  | desc =>
      rw [listsProblems_desc horder]
      cases mapSortColumn q.sort with
      | externalId | code =>
          refine iff_of_true ?_ trivial
          rw [reads_text_desc htexts hids' hpositive SortColumn.noConfusion]
          exact fun _ _ _ => nofun
      | observedAt => exact reads_date_desc htexts hids' hpositive
      | ownerOrganization =>
          rw [reads_text_desc htexts hids' hpositive SortColumn.noConfusion]
          unfold PagesRight
          dsimp only
          have howner : ∀ r s : ProblemRow,
              (SortColumn.ownerOrganization.value collate r = none →
                SortColumn.ownerOrganization.value collate s = some (toLex (.inl (collate ""))) ∧
                  collate s.externalId < collate r.externalId) ↔ OwnerFollows collate r s := by
            intro r s
            have hempty : SortColumn.ownerOrganization.value collate s =
                some (toLex (.inl (collate ""))) ↔ s.ownerOrganization = some "" := by
              cases hs : s.ownerOrganization with
              | none => simp [SortColumn.value, hs]
              | some owner => simp [SortColumn.value, hs, htexts.injective.eq_iff]
            rw [OwnerFollows, hempty, value_eq_none]
            simp only [true_and]
          exact forall_congr' fun i => forall_congr' fun _ => forall_congr' fun _ => howner _ _

end Listing

section Sample

def ownedProblem (externalId : String) (owner : Option String) : ProblemRow :=
  catalogRow 10000000 ⟨externalId, externalId, owner, false, none, none, none, 1⟩ .present

def tenthSecond (_ : Timestamp) : String :=
  "Thu Jan 01 1970 00:00:10 GMT+0000 (Coordinated Universal Time)"

def rejectsDates (_ : String) : Option Timestamp := none

theorem readsTexts_rejecting : ReadsTexts (id : String → String) tenthSecond rejectsDates where
  injective := Function.injective_id
  least := fun text => by
    rw [id_eq, id_eq, String.le_iff_toList_le]
    exact not_lt.mp (List.not_lt_nil text.toList)
  seconds := nofun

theorem problems_listed_by_id :
    ListsProblems (id : String → String) tenthSecond rejectsDates (fun _ _ => false) {} 1
      [ownedProblem "101" none, ownedProblem "102" (some "ptit")] :=
  (problems_listed_iff readsTexts_rejecting (by decide) (by decide)).mpr trivial

/-- A problem without an owner is not listed behind one with an owner. -/
theorem null_owner_not_listed :
    ¬ ListsProblems (id : String → String) tenthSecond rejectsDates (fun _ _ => false)
      { sort := some "owner_organization" } 1
      [ownedProblem "101" none, ownedProblem "102" (some "ptit")] := by
  rw [listsProblems_asc rfl]
  have hnulls := @reads_null_asc String _ id tenthSecond rejectsDates
    [ownedProblem "101" none, ownedProblem "102" (some "ptit")] 1 readsTexts_rejecting (by decide)
    (by decide) (ownedProblem "101" none) List.mem_cons_self rfl
  exact fun h => absurd (hnulls.mp h) (by decide)

end Sample

end ExternalStorage.Dashboard
