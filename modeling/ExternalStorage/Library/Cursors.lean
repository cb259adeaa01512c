import ExternalStorage.Library.Paging

/-!
# Paging with cursors that are no keys

What a cursor keeps of the last row of a page need not be a key of the table: it may select
other rows than those that follow, and there may be none.  A reading is complete when, at the
end of each page, the cursor passes over the last row and selects the next one.
-/

namespace ExternalStorage.Library.Cursors

open Paging

variable {ρ κ γ : Type*} [LinearOrder κ] (key : ρ → κ) (selects : γ → ρ → Bool)
  (cursorOf : ρ → Option γ)

/-- Without a cursor every row is selected. -/
def selected (cursor : Option γ) (r : ρ) : Bool :=
  match cursor with
  | none => true
  | some c => selects c r

/-- The pages from a cursor on; `none` when the fuel runs out, or when no cursor comes of the
last row of a page. -/
def readPages (limit : Nat) (rows : List ρ) : Nat → Option γ → Option (List ρ)
  | 0, _ => none
  | fuel + 1, cursor =>
      let found := (inOrder key (rows.filter (selected selects cursor))).take (limit + 1)
      let items := found.take limit
      if limit < found.length then
        match items.getLast?.bind cursorOf with
        | none => none
        | some c => (readPages limit rows fuel (some c)).map (items ++ ·)
      else
        some items

/-- Every page read gives the rows of the table, in order and once. -/
def ReadsInOrder (limit : Nat) (rows : List ρ) : Prop :=
  ∃ fuel, readPages key selects cursorOf limit rows fuel none = some (inOrder key rows)

/-- Every page read gives each row of the table once. -/
def ReadsOnce (limit : Nat) (rows : List ρ) : Prop :=
  ∃ fuel items, readPages key selects cursorOf limit rows fuel none = some items ∧
    items.Perm rows

/-- The last row of a page, and the row after it. -/
def AtPageEnds (P : ρ → ρ → Prop) (limit : Nat) (ordered : List ρ) : Prop :=
  ∀ i, ∀ h : i + 1 < ordered.length, limit ∣ i + 1 → P ordered[i] ordered[i + 1]

instance (P : ρ → ρ → Prop) [∀ r s, Decidable (P r s)] (limit : Nat) (ordered : List ρ) :
    Decidable (AtPageEnds P limit ordered) :=
  decidable_of_iff (∀ i, ∀ h : i < ordered.length - 1, limit ∣ i + 1 →
      P (ordered.get ⟨i, Nat.lt_of_lt_pred h⟩) (ordered.get ⟨i + 1, Nat.add_lt_of_lt_sub h⟩))
    ⟨fun h i hi => h i (Nat.lt_sub_of_add_lt hi), fun h i hi => h i (Nat.add_lt_of_lt_sub hi)⟩

/-- A cursor that selects a row selects those behind it. -/
def Closed (rows : List ρ) : Prop :=
  ∀ r ∈ rows, ∀ c ∈ cursorOf r, ∀ s ∈ rows, ∀ t ∈ rows, key s < key t →
    selects c s = true → selects c t = true

/-- The cursor of a row selects only rows behind it. -/
def Forward (rows : List ρ) : Prop :=
  ∀ r ∈ rows, ∀ c ∈ cursorOf r, ∀ s ∈ rows, selects c s = true → key r < key s

/-- The cursor of a row selects all rows behind it. -/
def Covering (rows : List ρ) : Prop :=
  ∀ r ∈ rows, ∀ c ∈ cursorOf r, ∀ s ∈ rows, key r < key s → selects c s = true

/-- The cursor of `r` passes over `r` and goes on with `s`. -/
def GoesOn (r s : ρ) : Prop :=
  ∃ c ∈ cursorOf r, selects c r = false ∧ selects c s = true

section Reading

variable {key selects cursorOf} {rows : List ρ} {limit : Nat}

theorem AtPageEnds.of_split {P : ρ → ρ → Prop} {ordered front back : List ρ} {r s : ρ}
    (h : AtPageEnds P limit ordered) (hsplit : ordered = front ++ r :: s :: back)
    (hdvd : limit ∣ front.length + 1) : P r s := by
  subst hsplit
  have hlength : front.length + 1 < (front ++ r :: s :: back).length := by
    rw [List.length_append, List.length_cons, List.length_cons]
    omega
  simpa using h front.length hlength hdvd

theorem atPageEnds_iff {P : ρ → ρ → Prop} {ordered : List ρ} :
    AtPageEnds P limit ordered ↔ ∀ front r s back, ordered = front ++ r :: s :: back →
      limit ∣ front.length + 1 → P r s := by
  constructor
  · intro h front r s back hsplit hdvd
    exact h.of_split hsplit hdvd
  · intro h i hi hdvd
    refine h (ordered.take i) _ _ (ordered.drop (i + 2)) ?_ ?_
    · rw [← List.drop_eq_getElem_cons hi, ← List.drop_eq_getElem_cons (Nat.lt_of_succ_lt hi),
        List.take_append_drop]
    · rwa [List.length_take_of_le (Nat.le_of_lt (Nat.lt_of_succ_lt hi))]

/-- What holds of the rows at the ends of pages need only be told apart for rows in order. -/
theorem atPageEnds_congr {P Q : ρ → ρ → Prop} {R : ρ → ρ → Prop} {ordered : List ρ}
    (hsorted : ordered.Pairwise R)
    (h : ∀ r ∈ ordered, ∀ s ∈ ordered, R r s → (P r s ↔ Q r s)) :
    AtPageEnds P limit ordered ↔ AtPageEnds Q limit ordered := by
  have hat : ∀ i, ∀ hi : i + 1 < ordered.length,
      (P ordered[i] ordered[i + 1] ↔ Q ordered[i] ordered[i + 1]) := by
    intro i hi
    exact h _ (List.getElem_mem _) _ (List.getElem_mem _)
      (List.pairwise_iff_getElem.mp hsorted i (i + 1) (Nat.lt_of_succ_lt hi) hi (Nat.lt_succ_self i))
  constructor
  · exact fun hP i hi hdvd => (hat i hi).mp (hP i hi hdvd)
  · exact fun hQ i hi hdvd => (hat i hi).mpr (hQ i hi hdvd)

def ahead (key : ρ → κ) (selects : γ → ρ → Bool) (rows : List ρ) (cursor : Option γ) : List ρ :=
  (inOrder key rows).filter (selected selects cursor)

theorem ahead_none : ahead key selects rows none = inOrder key rows :=
  List.filter_eq_self.mpr fun _ _ => rfl

theorem mem_ahead {cursor : Option γ} {r : ρ} :
    r ∈ ahead key selects rows cursor ↔ r ∈ rows ∧ selected selects cursor r = true := by
  rw [ahead, List.mem_filter, (perm_inOrder rows).mem_iff]

theorem readPages_last (hkeys : (rows.map key).Nodup) {cursor : Option γ} (fuel : Nat)
    (hlength : (ahead key selects rows cursor).length ≤ limit) :
    readPages key selects cursorOf limit rows (fuel + 1) cursor =
      some (ahead key selects rows cursor) := by
  unfold readPages
  rw [inOrder_filter hkeys, show (inOrder key rows).filter (selected selects cursor) =
    ahead key selects rows cursor from rfl]
  dsimp only
  rw [List.take_of_length_le (Nat.le_succ_of_le hlength), if_neg (Nat.not_lt.mpr hlength),
    List.take_of_length_le hlength]

theorem readPages_more (hkeys : (rows.map key).Nodup) {cursor : Option γ} (fuel : Nat)
    {front back : List ρ} {r : ρ} (hahead : ahead key selects rows cursor = front ++ r :: back)
    (hlength : front.length + 1 = limit) (hback : back ≠ []) :
    readPages key selects cursorOf limit rows (fuel + 1) cursor =
      (cursorOf r).bind fun c =>
        (readPages key selects cursorOf limit rows fuel (some c)).map (front ++ [r] ++ ·) := by
  have hpositive := List.length_pos_iff.mpr hback
  have hitems : ((ahead key selects rows cursor).take (limit + 1)).take limit = front ++ [r] := by
    rw [List.take_take, Nat.min_eq_left (Nat.le_succ limit), hahead, ← hlength, List.append_cons,
      List.take_left' (by rw [List.length_append, List.length_singleton])]
  have hmore : limit < ((ahead key selects rows cursor).take (limit + 1)).length := by
    rw [List.length_take, hahead, List.length_append, List.length_cons]
    omega
  conv_lhs => unfold readPages
  rw [inOrder_filter hkeys, show (inOrder key rows).filter (selected selects cursor) =
    ahead key selects rows cursor from rfl]
  dsimp only
  rw [if_pos hmore, hitems, List.getLast?_concat, Option.bind_some]
  cases cursorOf r <;> rfl

theorem readPages_head (hkeys : (rows.map key).Nodup) (hlimit : 0 < limit) {fuel : Nat}
    {cursor : Option γ} {s : ρ} {more items : List ρ}
    (hahead : ahead key selects rows cursor = s :: more)
    (hread : readPages key selects cursorOf limit rows fuel cursor = some items) :
    ∃ tail, items = s :: tail := by
  cases fuel with
  | zero => cases hread
  | succ fuel =>
      by_cases hmore : limit < (ahead key selects rows cursor).length
      · obtain ⟨front, r, back, hsplit, hlength, hback, -⟩ := split_page hlimit hmore
        rw [readPages_more hkeys fuel hsplit hlength hback] at hread
        obtain ⟨c, -, hread⟩ := Option.bind_eq_some_iff.mp hread
        obtain ⟨items', -, rfl⟩ := Option.map_eq_some_iff.mp hread
        rw [hahead] at hsplit
        cases front with
        | nil =>
            obtain ⟨rfl, -⟩ := List.cons.inj hsplit
            exact ⟨items', rfl⟩
        | cons f front =>
            obtain ⟨rfl, -⟩ := List.cons.inj hsplit
            exact ⟨front ++ [r] ++ items', by rw [List.cons_append, List.cons_append]⟩
      · rw [readPages_last hkeys fuel (Nat.not_lt.mp hmore), hahead] at hread
        exact ⟨more, (Option.some.inj hread).symm⟩

/-! ## Readings in order -/

theorem mem_of_split {front back : List ρ} {r : ρ} (hsplit : inOrder key rows = front ++ r :: back) :
    r ∈ rows :=
  (perm_inOrder rows).mem_iff.mp (hsplit ▸ List.mem_append_right _ List.mem_cons_self)

theorem ahead_eq_of_head (hkeys : (rows.map key).Nodup) (hclosed : Closed key selects cursorOf rows)
    {front more back : List ρ} {r s : ρ} {c : γ} (hr : r ∈ rows) (hc : c ∈ cursorOf r)
    (hsplit : inOrder key rows = front ++ s :: back)
    (hahead : ahead key selects rows (some c) = s :: more) :
    ahead key selects rows (some c) = s :: back := by
  have hsorted := pairwise_lt_inOrder hkeys
  rw [hsplit, List.pairwise_append, List.pairwise_cons] at hsorted
  obtain ⟨-, ⟨hback, -⟩, hfront⟩ := hsorted
  have hselected : selects c s = true :=
    (mem_ahead.mp (hahead ▸ List.mem_cons_self : s ∈ ahead key selects rows (some c))).2
  have hs : s ∈ rows := mem_of_split hsplit
  have hrows : ∀ t ∈ front ++ s :: back, t ∈ rows := fun t ht =>
    (perm_inOrder rows).mem_iff.mp (hsplit ▸ ht)
  have hall : (s :: back).filter (selected selects (some c)) = s :: back := by
    rw [List.filter_eq_self]
    intro t ht
    rcases List.mem_cons.mp ht with rfl | htback
    · exact hselected
    · exact hclosed r hr c hc s hs t (hrows t (List.mem_append_right _ ht)) (hback t htback)
        hselected
  have hahead' : ahead key selects rows (some c) =
      front.filter (selected selects (some c)) ++ s :: back := by
    rw [ahead, hsplit, List.filter_append, hall]
  cases hfilter : front.filter (selected selects (some c)) with
  | nil => rw [hahead', hfilter, List.nil_append]
  | cons f front' =>
      rw [hahead', hfilter, List.cons_append] at hahead
      have hf : f ∈ front := (List.mem_filter.mp (hfilter ▸ List.mem_cons_self)).1
      have hlt := hfront f hf s List.mem_cons_self
      rw [(List.cons.inj hahead).1] at hlt
      exact absurd hlt (lt_irrefl _)

/-- The cursor of a row that goes on with the next one selects just what follows. -/
theorem ahead_eq_of_goesOn (hkeys : (rows.map key).Nodup)
    (hclosed : Closed key selects cursorOf rows) {front back : List ρ} {r s : ρ} {c : γ}
    (hc : c ∈ cursorOf r) (hsplit : inOrder key rows = front ++ r :: s :: back)
    (hpassed : selects c r = false) (hnext : selects c s = true) :
    ahead key selects rows (some c) = s :: back := by
  have hsorted := pairwise_lt_inOrder hkeys
  rw [hsplit, List.pairwise_append, List.pairwise_cons, List.pairwise_cons] at hsorted
  obtain ⟨-, ⟨-, hback, -⟩, hfront⟩ := hsorted
  have hr : r ∈ rows := mem_of_split hsplit
  have hrows : ∀ t ∈ front ++ r :: s :: back, t ∈ rows := fun t ht =>
    (perm_inOrder rows).mem_iff.mp (hsplit ▸ ht)
  have hs : s ∈ rows := hrows s (by simp)
  have hnone : front.filter (selected selects (some c)) = [] := by
    rw [List.filter_eq_nil_iff]
    intro t ht hselected
    rw [hclosed r hr c hc t (hrows t (List.mem_append_left _ ht)) r hr
      (hfront t ht r List.mem_cons_self) hselected] at hpassed
    cases hpassed
  have hall : (s :: back).filter (selected selects (some c)) = s :: back := by
    rw [List.filter_eq_self]
    intro t ht
    rcases List.mem_cons.mp ht with rfl | htback
    · exact hnext
    · exact hclosed r hr c hc s hs t (hrows t (by simp [htback])) (hback t htback) hnext
  rw [ahead, hsplit, List.filter_append, hnone, List.nil_append,
    List.filter_cons_of_neg (by simpa [selected] using hpassed), hall]

/-- From a page on that begins where the last one ended, the reading is complete if every page
goes on. -/
theorem readPages_of_goesOn (hkeys : (rows.map key).Nodup) (hlimit : 0 < limit)
    (hclosed : Closed key selects cursorOf rows)
    (hends : AtPageEnds (GoesOn selects cursorOf) limit (inOrder key rows)) (fuel : Nat)
    (done : List ρ) {todo : List ρ} {cursor : Option γ} (hsplit : inOrder key rows = done ++ todo)
    (hdone : limit ∣ done.length) (hahead : ahead key selects rows cursor = todo)
    (hfuel : todo.length < fuel) :
    readPages key selects cursorOf limit rows fuel cursor = some todo := by
  induction fuel generalizing done todo cursor with
  | zero => omega
  | succ fuel ih =>
      by_cases hmore : limit < todo.length
      · obtain ⟨front, r, back, htodo, hlength, hback, -⟩ := split_page hlimit hmore
        obtain ⟨s, back', rfl⟩ := List.exists_cons_of_ne_nil hback
        have hsplit' : inOrder key rows = (done ++ front) ++ r :: s :: back' := by
          rw [hsplit, htodo, List.append_assoc]
        have hdone' : limit ∣ (done ++ front).length + 1 := by
          rw [List.length_append, Nat.add_assoc, hlength]
          exact Nat.dvd_add hdone (Nat.dvd_refl limit)
        obtain ⟨c, hc, hpassed, hnext⟩ := hends.of_split hsplit' hdone'
        have hahead' := ahead_eq_of_goesOn hkeys hclosed hc hsplit' hpassed hnext
        have hsplit'' : inOrder key rows = (done ++ front ++ [r]) ++ s :: back' := by
          rw [hsplit', List.append_assoc _ [r], List.singleton_append]
        have hfuel' : (s :: back').length < fuel := by
          rw [htodo, List.length_append, List.length_cons] at hfuel
          omega
        have hrest := ih _ hsplit'' (by rwa [List.length_append, List.length_singleton]) hahead' hfuel'
        rw [readPages_more hkeys fuel (hahead.trans htodo) hlength hback, hc, Option.bind_some,
          hrest, Option.map_some, htodo, List.append_assoc, List.singleton_append]
      · rw [readPages_last hkeys fuel (hahead ▸ Nat.not_lt.mp hmore), hahead]

theorem goesOn_of_readPages (hkeys : (rows.map key).Nodup) (hlimit : 0 < limit)
    (hclosed : Closed key selects cursorOf rows) (fuel : Nat) (done : List ρ) {todo : List ρ}
    {cursor : Option γ} (hsplit : inOrder key rows = done ++ todo)
    (hahead : ahead key selects rows cursor = todo)
    (hread : readPages key selects cursorOf limit rows fuel cursor = some todo)
    {front back : List ρ} {r s : ρ} (htodo : todo = front ++ r :: s :: back)
    (hdvd : limit ∣ front.length + 1) : GoesOn selects cursorOf r s := by
  induction fuel generalizing done todo cursor front with
  | zero => cases hread
  | succ fuel ih =>
      have hmore : limit < todo.length := by
        have hle := Nat.le_of_dvd (Nat.succ_pos _) hdvd
        rw [htodo, List.length_append, List.length_cons, List.length_cons]
        omega
      obtain ⟨front₁, r₁, back₁, htodo₁, hlength, hback, -⟩ := split_page hlimit hmore
      obtain ⟨s₁, back₁, rfl⟩ := List.exists_cons_of_ne_nil hback
      rw [readPages_more hkeys fuel (hahead.trans htodo₁) hlength hback] at hread
      obtain ⟨c, hc, hread⟩ := Option.bind_eq_some_iff.mp hread
      obtain ⟨items, hrest, hitems⟩ := Option.map_eq_some_iff.mp hread
      rw [htodo₁, List.append_assoc, List.singleton_append, List.append_right_inj,
        List.cons.injEq] at hitems
      obtain ⟨-, rfl⟩ := hitems
      have hsplit₁ : inOrder key rows = (done ++ front₁) ++ r₁ :: s₁ :: back₁ := by
        rw [hsplit, htodo₁, List.append_assoc]
      have hsplit₂ : inOrder key rows = (done ++ front₁ ++ [r₁]) ++ s₁ :: back₁ := by
        rw [hsplit₁, List.append_assoc _ [r₁], List.singleton_append]
      have hr₁ : r₁ ∈ rows := mem_of_split hsplit₁
      -- The next page begins with what its cursor selects first.
      obtain ⟨h, more, hahead'⟩ : ∃ h more, ahead key selects rows (some c) = h :: more := by
        apply List.exists_cons_of_ne_nil
        intro hnil
        cases fuel with
        | zero => cases hrest
        | succ fuel =>
            rw [readPages_last hkeys fuel (by rw [hnil]; exact Nat.zero_le _), hnil] at hrest
            cases hrest
      obtain ⟨tail, htail⟩ := readPages_head hkeys hlimit hahead' hrest
      obtain rfl : s₁ = h := (List.cons.inj htail).1
      have hexact := ahead_eq_of_head hkeys hclosed hr₁ hc hsplit₂ hahead'
      have hgoesOn : GoesOn selects cursorOf r₁ s₁ := by
        refine ⟨c, hc, ?_, ?_⟩
        · rw [← Bool.not_eq_true]
          intro hself
          have hmem : r₁ ∈ ahead key selects rows (some c) := mem_ahead.mpr ⟨hr₁, hself⟩
          have hsorted := pairwise_lt_inOrder hkeys
          rw [hsplit₂, List.pairwise_append] at hsorted
          rw [hexact] at hmem
          exact lt_irrefl _ (hsorted.2.2 r₁ (by simp) r₁ hmem)
        · exact (mem_ahead.mp (hexact ▸ List.mem_cons_self :
            s₁ ∈ ahead key selects rows (some c))).2
      rcases split_at (htodo.symm.trans htodo₁) with ⟨hlt, -⟩ | ⟨-, rfl, hrest'⟩ | ⟨mid, rfl, hmid⟩
      · have hle := Nat.le_of_dvd (Nat.succ_pos _) hdvd
        omega
      · obtain rfl : s = s₁ := (List.cons.inj hrest').1
        exact hgoesOn
      · refine ih _ hsplit₂ hexact hrest hmid ?_
        have hlengths : (front₁ ++ r₁ :: mid).length + 1 = limit + (mid.length + 1) := by
          rw [List.length_append, List.length_cons]
          omega
        rw [hlengths] at hdvd
        exact (Nat.dvd_add_right (Nat.dvd_refl limit)).mp hdvd

/-- With closed cursors a reading is complete and in order exactly when every page goes on. -/
theorem readsInOrder_iff (hkeys : (rows.map key).Nodup) (hlimit : 0 < limit)
    (hclosed : Closed key selects cursorOf rows) :
    ReadsInOrder key selects cursorOf limit rows ↔
      AtPageEnds (GoesOn selects cursorOf) limit (inOrder key rows) := by
  constructor
  · rintro ⟨fuel, hread⟩
    rw [atPageEnds_iff]
    intro front r s back hsplit hdvd
    exact goesOn_of_readPages hkeys hlimit hclosed fuel [] rfl ahead_none hread hsplit hdvd
  · intro hends
    exact ⟨_, readPages_of_goesOn hkeys hlimit hclosed hends _ [] rfl (Nat.dvd_zero _)
      ahead_none (Nat.lt_succ_self _)⟩

/-! ## Readings of each row once -/

theorem pairwise_readPages (hkeys : (rows.map key).Nodup) (hlimit : 0 < limit)
    (hforward : Forward key selects cursorOf rows) (fuel : Nat) {cursor : Option γ}
    {items : List ρ} (hread : readPages key selects cursorOf limit rows fuel cursor = some items) :
    (items.Pairwise fun r s => key r < key s) ∧
      ∀ k, (∀ r ∈ ahead key selects rows cursor, k < key r) → ∀ r ∈ items, k < key r := by
  induction fuel generalizing cursor items with
  | zero => cases hread
  | succ fuel ih =>
      have hsorted : (ahead key selects rows cursor).Pairwise fun r s => key r < key s :=
        (pairwise_lt_inOrder hkeys).sublist List.filter_sublist
      by_cases hmore : limit < (ahead key selects rows cursor).length
      · obtain ⟨front, r, back, hahead, hlength, hback, -⟩ := split_page hlimit hmore
        rw [readPages_more hkeys fuel hahead hlength hback] at hread
        obtain ⟨c, hc, hread⟩ := Option.bind_eq_some_iff.mp hread
        obtain ⟨items', hrest, rfl⟩ := Option.map_eq_some_iff.mp hread
        obtain ⟨hpairwise, hlower⟩ := ih hrest
        have hsub : ∀ t ∈ front ++ [r], t ∈ ahead key selects rows cursor := by
          intro t ht
          rw [hahead, List.append_cons]
          exact List.mem_append_left _ ht
        have hr : r ∈ rows := (mem_ahead.mp (hsub r (by simp))).1
        have hlater : ∀ t ∈ items', key r < key t := by
          apply hlower
          intro t ht
          obtain ⟨htrows, hselected⟩ := mem_ahead.mp ht
          exact hforward r hr c hc t htrows hselected
        rw [hahead, List.append_cons, List.pairwise_append] at hsorted
        obtain ⟨hpage, -, -⟩ := hsorted
        have hle : ∀ t ∈ front ++ [r], key t ≤ key r := by
          intro t ht
          rcases List.mem_append.mp ht with hfront | hlast
          · exact ((List.pairwise_append.mp hpage).2.2 t hfront r (List.mem_singleton_self r)).le
          · rw [List.mem_singleton.mp hlast]
        constructor
        · refine List.pairwise_append.mpr ⟨hpage, hpairwise, ?_⟩
          intro t ht u hu
          exact (hle t ht).trans_lt (hlater u hu)
        · intro k hk t ht
          rcases List.mem_append.mp ht with hpage' | hrest'
          · exact hk t (hsub t hpage')
          · exact (hk r (hsub r (by simp))).trans (hlater t hrest')
      · rw [readPages_last hkeys fuel (Nat.not_lt.mp hmore)] at hread
        obtain rfl := Option.some.inj hread
        exact ⟨hsorted, fun k hk => hk⟩

/-- Cursors that select all rows behind them, and never give a row twice, miss none. -/
theorem readPages_of_nodup (hkeys : (rows.map key).Nodup) (hlimit : 0 < limit)
    (hcovering : Covering key selects cursorOf rows) (fuel : Nat) {done todo items : List ρ}
    {cursor : Option γ} (hsplit : inOrder key rows = done ++ todo)
    (hahead : ahead key selects rows cursor = todo)
    (hread : readPages key selects cursorOf limit rows fuel cursor = some items)
    (hnodup : (done ++ items).Nodup) : items = todo := by
  induction fuel generalizing done todo items cursor with
  | zero => cases hread
  | succ fuel ih =>
      by_cases hmore : limit < todo.length
      · obtain ⟨front, r, back, htodo, hlength, hback, -⟩ := split_page hlimit hmore
        rw [readPages_more hkeys fuel (hahead.trans htodo) hlength hback] at hread
        obtain ⟨c, hc, hread⟩ := Option.bind_eq_some_iff.mp hread
        obtain ⟨items', hrest, rfl⟩ := Option.map_eq_some_iff.mp hread
        have hsplit' : inOrder key rows = (done ++ front ++ [r]) ++ back := by
          rw [hsplit, htodo, List.append_assoc, List.append_assoc, List.singleton_append]
        have hr : r ∈ rows := mem_of_split (by rw [hsplit', List.append_assoc]; rfl)
        have hsorted := pairwise_lt_inOrder hkeys
        rw [hsplit', List.pairwise_append] at hsorted
        have hall : back.filter (selected selects (some c)) = back := by
          rw [List.filter_eq_self]
          intro t ht
          have htrows : t ∈ rows :=
            (perm_inOrder rows).mem_iff.mp (hsplit' ▸ List.mem_append_right _ ht)
          exact hcovering r hr c hc t htrows (hsorted.2.2 r (by simp) t ht)
        have hahead' : ahead key selects rows (some c) =
            (done ++ front ++ [r]).filter (selected selects (some c)) ++ back := by
          rw [ahead, hsplit', List.filter_append, hall]
        -- A row that the cursor selects again would come first on the next page.
        have hnone : (done ++ front ++ [r]).filter (selected selects (some c)) = [] := by
          by_contra hne
          obtain ⟨h, more, hcons⟩ := List.exists_cons_of_ne_nil hne
          rw [hcons, List.cons_append] at hahead'
          obtain ⟨tail, rfl⟩ := readPages_head hkeys hlimit hahead' hrest
          have hh : h ∈ done ++ front ++ [r] := (List.mem_filter.mp (hcons ▸ List.mem_cons_self)).1
          rw [← List.append_assoc, ← List.append_assoc, List.nodup_append] at hnodup
          exact hnodup.2.2 h hh h List.mem_cons_self rfl
        rw [hnone, List.nil_append] at hahead'
        have hitems := ih hsplit' hahead' hrest
          (by rwa [← List.append_assoc, ← List.append_assoc] at hnodup)
        rw [hitems, htodo, List.append_assoc, List.singleton_append]
      · rw [readPages_last hkeys fuel (hahead ▸ Nat.not_lt.mp hmore), hahead] at hread
        exact (Option.some.inj hread).symm

/-- With cursors that never go back, or never pass over a row, what gives each row once gives
them in order. -/
theorem readsOnce_iff_readsInOrder (hkeys : (rows.map key).Nodup) (hlimit : 0 < limit)
    (h : Forward key selects cursorOf rows ∨ Covering key selects cursorOf rows) :
    ReadsOnce key selects cursorOf limit rows ↔ ReadsInOrder key selects cursorOf limit rows := by
  constructor
  · rintro ⟨fuel, items, hread, hperm⟩
    refine ⟨fuel, hread.trans (congrArg some ?_)⟩
    rcases h with hforward | hcovering
    · have hpairwise := (pairwise_readPages hkeys hlimit hforward fuel hread).1
      have hnot : ∀ r s : ρ, r ∈ items → s ∈ inOrder key rows → key r < key s → key s < key r →
          r = s := fun r s _ _ hrs hsr => absurd hrs hsr.asymm
      exact List.Perm.eq_of_pairwise hnot hpairwise (pairwise_lt_inOrder hkeys)
        (hperm.trans (perm_inOrder rows).symm)
    · have hnodup : ([] ++ items).Nodup := hperm.nodup_iff.mpr (List.Nodup.of_map key hkeys)
      exact readPages_of_nodup hkeys hlimit hcovering fuel rfl ahead_none hread hnodup
  · rintro ⟨fuel, hread⟩
    exact ⟨fuel, _, hread, perm_inOrder rows⟩

theorem readsOnce_iff (hkeys : (rows.map key).Nodup) (hlimit : 0 < limit)
    (hclosed : Closed key selects cursorOf rows)
    (h : Forward key selects cursorOf rows ∨ Covering key selects cursorOf rows) :
    ReadsOnce key selects cursorOf limit rows ↔
      AtPageEnds (GoesOn selects cursorOf) limit (inOrder key rows) :=
  (readsOnce_iff_readsInOrder hkeys hlimit h).trans (readsInOrder_iff hkeys hlimit hclosed)

theorem mem_readPages_of_unselected (hkeys : (rows.map key).Nodup) (hlimit : 0 < limit)
    {fuel : Nat} {cursor : Option γ} {items : List ρ}
    (hread : readPages key selects cursorOf limit rows fuel cursor = some items) {r : ρ}
    (hnever : ∀ c, selects c r = false) (hr : r ∈ items) :
    cursor = none ∧ r ∈ (inOrder key rows).take limit := by
  induction fuel generalizing cursor items with
  | zero => cases hread
  | succ fuel ih =>
      have hfirst : ∀ {front : List ρ}, r ∈ front →
          front = (ahead key selects rows cursor).take limit →
            cursor = none ∧ r ∈ (inOrder key rows).take limit := by
        intro front hmem heq
        subst heq
        cases cursor with
        | none => exact ⟨rfl, (@ahead_none _ _ _ _ key selects rows) ▸ hmem⟩
        | some c =>
            have hselected := (mem_ahead.mp (List.mem_of_mem_take hmem)).2
            exact absurd hselected (Bool.eq_false_iff.mp (hnever c))
      by_cases hmore : limit < (ahead key selects rows cursor).length
      · obtain ⟨front, t, back, hahead, hlength, hback, htake⟩ := split_page hlimit hmore
        rw [readPages_more hkeys fuel hahead hlength hback] at hread
        obtain ⟨c, hc, hread⟩ := Option.bind_eq_some_iff.mp hread
        obtain ⟨items', hrest, rfl⟩ := Option.map_eq_some_iff.mp hread
        rcases List.mem_append.mp hr with hpage | hlater
        · exact hfirst hpage htake.symm
        · exact absurd (ih hrest hlater).1 (Option.some_ne_none c)
      · rw [readPages_last hkeys fuel (Nat.not_lt.mp hmore)] at hread
        obtain rfl := Option.some.inj hread
        exact hfirst hr (List.take_of_length_le (Nat.not_lt.mp hmore)).symm

end Reading

end ExternalStorage.Library.Cursors
