import Mathlib.Data.List.Sort

/-!
# Keyset paging

A table is read page by page in the order of a key: the cursor of a page is made from the
key of its last row, and the next page is what lies behind the cursor.  `mark` is what
the cursor keeps of a key.  Where it loses something, rows come twice.
-/

namespace ExternalStorage.Library.Paging

variable {ρ κ : Type*} [LinearOrder κ] (key : ρ → κ) (mark : κ → κ)

/-- A page of rows, the cursor to go on from and whether there is more. -/
structure Page (ρ κ : Type*) where
  items : List ρ
  next : Option κ
  more : Bool

/-- `ORDER BY key`. -/
def inOrder (rows : List ρ) : List ρ := rows.insertionSort fun r s => key r ≤ key s

/-- `WHERE key > cursor`; without a cursor every row is behind it. -/
def behind (cursor : Option κ) (r : ρ) : Bool :=
  match cursor with
  | none => true
  | some c => c < key r

/-- One row more than the page takes tells whether there is more. -/
def page (limit : Nat) (rows : List ρ) (cursor : Option κ) : Page ρ κ :=
  let found := (inOrder key (rows.filter (behind key cursor))).take (limit + 1)
  let items := found.take limit
  ⟨items, items.getLast?.map fun r => mark (key r), limit < found.length⟩

/-- The pages from a cursor on, with the last cursor; `none` when the fuel runs out. -/
def follow (limit : Nat) (rows : List ρ) : Nat → Option κ → Option (List ρ × Option κ)
  | 0, _ => none
  | fuel + 1, cursor =>
      let p := page key mark limit rows cursor
      if p.more then
        (follow limit rows fuel p.next).map fun rest => (p.items ++ rest.1, rest.2)
      else
        some (p.items, p.next)

section Order

variable {key}

theorem pairwise_inOrder (rows : List ρ) :
    (inOrder key rows).Pairwise fun r s => key r ≤ key s := by
  have htotal : Std.Total (fun r s : ρ => key r ≤ key s) := ⟨fun r s => le_total (key r) (key s)⟩
  have htrans : IsTrans ρ (fun r s : ρ => key r ≤ key s) := ⟨fun r s t hrs hst => hrs.trans hst⟩
  exact List.pairwise_insertionSort _ rows

theorem perm_inOrder (rows : List ρ) : (inOrder key rows).Perm rows :=
  List.perm_insertionSort _ rows

theorem pairwise_lt_inOrder {rows : List ρ} (hkeys : (rows.map key).Nodup) :
    (inOrder key rows).Pairwise fun r s => key r < key s := by
  have hnodup : ((inOrder key rows).map key).Nodup :=
    ((perm_inOrder rows).map key).nodup_iff.mpr hkeys
  have hne : (inOrder key rows).Pairwise fun r s => key r ≠ key s := List.pairwise_map.mp hnodup
  exact (pairwise_inOrder rows).imp₂ (fun _ _ hle hne => lt_of_le_of_ne hle hne) hne

/-- Selecting rows and ordering them come to the same either way. -/
theorem inOrder_filter {rows : List ρ} (hkeys : (rows.map key).Nodup) (p : ρ → Bool) :
    inOrder key (rows.filter p) = (inOrder key rows).filter p := by
  refine List.Perm.eq_of_pairwise ?_ (pairwise_inOrder _)
    ((pairwise_inOrder rows).sublist List.filter_sublist) ?_
  · intro r s hr hs hrs hsr
    have hr : r ∈ rows := (List.mem_filter.mp ((perm_inOrder _).mem_iff.mp hr)).1
    have hs : s ∈ rows := (perm_inOrder rows).mem_iff.mp (List.mem_filter.mp hs).1
    exact List.inj_on_of_nodup_map hkeys hr hs (le_antisymm hrs hsr)
  · exact (perm_inOrder _).trans ((perm_inOrder rows).filter p).symm

/-- The rows that a limit leaves are those with few enough rows before them. -/
theorem mem_take_inOrder {rows : List ρ} (hkeys : (rows.map key).Nodup) {limit : Nat} {r : ρ}
    (hr : r ∈ rows) :
    r ∈ (inOrder key rows).take limit ↔ rows.countP (fun s => decide (key s < key r)) < limit := by
  obtain ⟨front, back, hsplit⟩ :=
    List.append_of_mem ((@perm_inOrder _ _ _ key rows).mem_iff.mpr hr)
  have hlt := pairwise_lt_inOrder hkeys
  rw [hsplit, List.pairwise_append, List.pairwise_cons] at hlt
  obtain ⟨-, ⟨hback, -⟩, hfront⟩ := hlt
  have hcount : rows.countP (fun s => decide (key s < key r)) = front.length := by
    have hfront' : front.countP (fun s => decide (key s < key r)) = front.length := by
      rw [List.countP_eq_length]
      exact fun s hs => decide_eq_true (hfront s hs r List.mem_cons_self)
    have hback' : (r :: back).countP (fun s => decide (key s < key r)) = 0 := by
      rw [List.countP_eq_zero]
      intro s hs
      rw [decide_eq_true_eq, not_lt]
      rcases List.mem_cons.mp hs with rfl | hs
      · exact le_refl _
      · exact (hback s hs).le
    calc rows.countP (fun s => decide (key s < key r))
        = (inOrder key rows).countP (fun s => decide (key s < key r)) :=
          ((perm_inOrder rows).countP_eq _).symm
      _ = front.length := by rw [hsplit, List.countP_append, hfront', hback', Nat.add_zero]
  rw [hcount, hsplit]
  constructor
  · intro h
    by_contra hle
    rw [List.take_append_of_le_length (Nat.le_of_not_lt hle)] at h
    exact lt_irrefl _ (hfront r (List.mem_of_mem_take h) r List.mem_cons_self)
  · intro h
    obtain ⟨k, rfl⟩ := Nat.exists_eq_add_of_lt h
    rw [Nat.add_assoc, List.take_length_add_append]
    exact List.mem_append_right _ List.mem_cons_self

theorem mem_front_iff {rows : List ρ} (hkeys : (rows.map key).Nodup) {limit : Nat} {r s : ρ}
    {front back : List ρ} (hsplit : (inOrder key rows).take limit = front ++ r :: back) :
    s ∈ front ↔ s ∈ rows ∧ key s < key r := by
  have hall : inOrder key rows = front ++ r :: (back ++ (inOrder key rows).drop limit) := by
    conv_lhs => rw [← List.take_append_drop limit (inOrder key rows), hsplit]
    rw [List.append_assoc, List.cons_append]
  have hlt := pairwise_lt_inOrder hkeys
  rw [hall, List.pairwise_append, List.pairwise_cons] at hlt
  obtain ⟨-, ⟨hback, -⟩, hfront⟩ := hlt
  rw [← (@perm_inOrder _ _ _ key rows).mem_iff, hall, List.mem_append, List.mem_cons]
  constructor
  · intro hs
    exact ⟨.inl hs, hfront s hs r List.mem_cons_self⟩
  · rintro ⟨hs | rfl | hs, hbefore⟩
    · exact hs
    · exact absurd hbefore (lt_irrefl _)
    · exact absurd hbefore (hback s hs).asymm

end Order

/-! ## Pages of an ordered table -/

section Follow

variable {key mark} {rows : List ρ} {limit : Nat}

theorem mem_of_mem_page {cursor : Option κ} {r : ρ}
    (hr : r ∈ (page key mark limit rows cursor).items) : r ∈ rows := by
  have hfound := List.mem_of_mem_take (List.mem_of_mem_take hr)
  exact (List.mem_filter.mp ((perm_inOrder _).mem_iff.mp hfound)).1

theorem mem_of_mem_follow {fuel : Nat} {cursor last : Option κ} {items : List ρ}
    (hfollow : follow key mark limit rows fuel cursor = some (items, last)) {r : ρ}
    (hr : r ∈ items) : r ∈ rows := by
  induction fuel generalizing cursor items with
  | zero => cases hfollow
  | succ fuel ih =>
      unfold follow at hfollow
      dsimp only at hfollow
      split at hfollow
      · obtain ⟨⟨items', last'⟩, hrest, heq⟩ := Option.map_eq_some_iff.mp hfollow
        obtain ⟨rfl, rfl⟩ := Prod.mk.inj heq
        rcases List.mem_append.mp hr with hr | hr
        · exact mem_of_mem_page hr
        · exact ih hrest hr
      · obtain ⟨rfl, -⟩ := Prod.mk.inj (Option.some.inj hfollow)
        exact mem_of_mem_page hr

/-- What lies behind the cursor in the ordered table. -/
def rest (key : ρ → κ) (rows : List ρ) (cursor : Option κ) : List ρ :=
  (inOrder key rows).filter (behind key cursor)

theorem rest_none : rest key rows none = inOrder key rows :=
  List.filter_eq_self.mpr fun _ _ => rfl

theorem page_eq (hkeys : (rows.map key).Nodup) (cursor : Option κ) :
    page key mark limit rows cursor =
      ⟨(rest key rows cursor).take limit,
        ((rest key rows cursor).take limit).getLast?.map fun r => mark (key r),
        limit < (rest key rows cursor).length⟩ := by
  have htake : ((rest key rows cursor).take (limit + 1)).take limit =
      (rest key rows cursor).take limit := by
    rw [List.take_take, Nat.min_eq_left (Nat.le_succ limit)]
  have hmore : (limit < ((rest key rows cursor).take (limit + 1)).length) =
      (limit < (rest key rows cursor).length) := by
    rw [List.length_take, eq_iff_iff]
    omega
  unfold page
  rw [inOrder_filter hkeys]
  change Page.mk _ _ _ = _
  rw [show (inOrder key rows).filter (behind key cursor) = rest key rows cursor from rfl]
  simp only [htake, hmore]

theorem mem_rest {cursor : Option κ} {r : ρ} :
    r ∈ rest key rows cursor ↔ r ∈ rows ∧ behind key cursor r = true := by
  rw [rest, List.mem_filter, (perm_inOrder rows).mem_iff]

theorem behind_of_mem_page (hkeys : (rows.map key).Nodup) {cursor : Option κ} {r : ρ}
    (hr : r ∈ (page key mark limit rows cursor).items) : behind key cursor r = true := by
  rw [page_eq hkeys] at hr
  exact (mem_rest.mp (List.mem_of_mem_take hr)).2

/-- A page passes over no row: what lies behind its cursor is on the page, or lies behind the
cursor to go on from. -/
theorem mem_page_or_behind (hkeys : (rows.map key).Nodup) (hmark : ∀ k, mark k ≤ k)
    {cursor : Option κ} {r : ρ} (hr : r ∈ rows) (hbehind : behind key cursor r = true) :
    r ∈ (page key mark limit rows cursor).items ∨
      behind key ((page key mark limit rows cursor).next.or cursor) r = true := by
  rw [page_eq hkeys]
  dsimp only
  have hrest : r ∈ rest key rows cursor := mem_rest.mpr ⟨hr, hbehind⟩
  rw [← List.take_append_drop limit (rest key rows cursor), List.mem_append] at hrest
  rcases hrest with htake | hdrop
  · exact .inl htake
  · right
    rcases List.eq_nil_or_concat ((rest key rows cursor).take limit) with hnil | ⟨front, l, hlast⟩
    · rw [hnil]
      exact hbehind
    · have hsorted : (rest key rows cursor).Pairwise fun r s => key r < key s :=
        (pairwise_lt_inOrder hkeys).sublist List.filter_sublist
      rw [← List.take_append_drop limit (rest key rows cursor), List.pairwise_append] at hsorted
      have hl : l ∈ (rest key rows cursor).take limit := by
        rw [hlast]
        simp
      have hlt : key l < key r := hsorted.2.2 l hl r hdrop
      rw [hlast, List.concat_eq_append, List.getLast?_concat, Option.map_some, Option.some_or]
      exact decide_eq_true (lt_of_le_of_lt (hmark _) hlt)

/-- A page after which there is no more has everything that lies behind its cursor. -/
theorem mem_page_of_last (hkeys : (rows.map key).Nodup) {cursor : Option κ} {r : ρ}
    (hr : r ∈ rows) (hbehind : behind key cursor r = true)
    (hlast : (page key mark limit rows cursor).more = false) :
    r ∈ (page key mark limit rows cursor).items := by
  rw [page_eq hkeys] at hlast ⊢
  have hlength : (rest key rows cursor).length ≤ limit := by simpa using hlast
  dsimp only
  rw [List.take_of_length_le hlength]
  exact mem_rest.mpr ⟨hr, hbehind⟩

/-- The cursor of a row that keeps the row's key leaves what follows the row. -/
theorem rest_key (hkeys : (rows.map key).Nodup) {front back : List ρ} {r : ρ}
    (hsplit : inOrder key rows = front ++ r :: back) : rest key rows (some (key r)) = back := by
  have hsorted := pairwise_lt_inOrder hkeys
  rw [hsplit, List.pairwise_append, List.pairwise_cons] at hsorted
  obtain ⟨-, ⟨hback, -⟩, hfront⟩ := hsorted
  unfold rest
  rw [hsplit, List.filter_append]
  have hnone : front.filter (behind key (some (key r))) = [] := by
    rw [List.filter_eq_nil_iff]
    intro s hs
    simpa [behind] using (hfront s hs r List.mem_cons_self).le
  have hself : behind key (some (key r)) r = false := by simp [behind]
  have hall : back.filter (behind key (some (key r))) = back := by
    rw [List.filter_eq_self]
    intro s hs
    simpa [behind] using hback s hs
  rw [hnone, List.nil_append, List.filter_cons_of_neg (by simp [hself]), hall]

/-- The cursor of a row that loses something leaves the row itself, or one before it, first. -/
theorem rest_mark {front back : List ρ} {r : ρ}
    (hsplit : inOrder key rows = front ++ r :: back) {c : κ} (hlt : c < key r) :
    ∃ s more, rest key rows (some c) = s :: more ∧ s ∈ front ++ [r] := by
  have hrest : rest key rows (some c) =
      (front ++ [r]).filter (behind key (some c)) ++ back.filter (behind key (some c)) := by
    rw [rest, hsplit, ← List.filter_append, List.append_assoc]
    rfl
  have hr : r ∈ (front ++ [r]).filter (behind key (some c)) :=
    List.mem_filter.mpr ⟨List.mem_append_right _ (List.mem_singleton.mpr rfl),
      decide_eq_true hlt⟩
  obtain ⟨s, more, hcons⟩ := List.exists_cons_of_ne_nil (List.ne_nil_of_mem hr)
  refine ⟨s, more ++ back.filter (behind key (some c)), ?_, ?_⟩
  · rw [hrest, hcons, List.cons_append]
  · have hs : s ∈ (front ++ [r]).filter (behind key (some c)) := by
      rw [hcons]
      exact List.mem_cons_self
    exact (List.mem_filter.mp hs).1

/-- The rows that the cursors of a complete reading are made from: each `limit`-th row and
the last one. -/
def Exact (key : ρ → κ) (mark : κ → κ) (limit : Nat) (rows : List ρ) : Prop :=
  ∀ front r back, inOrder key rows = front ++ r :: back →
    limit ∣ front.length + 1 ∨ back = [] → mark (key r) = key r

theorem exact_iff_getElem :
    Exact key mark limit rows ↔ ∀ i, ∀ h : i < (inOrder key rows).length,
      limit ∣ i + 1 ∨ i + 1 = (inOrder key rows).length →
        mark (key (inOrder key rows)[i]) = key (inOrder key rows)[i] := by
  constructor
  · intro hexact i hi hboundary
    apply hexact ((inOrder key rows).take i) _ ((inOrder key rows).drop (i + 1))
    · rw [← List.drop_eq_getElem_cons hi, List.take_append_drop]
    · rw [List.length_take_of_le (Nat.le_of_lt hi), List.drop_eq_nil_iff]
      exact hboundary.imp_right fun h => Nat.le_of_eq h.symm
  · intro hindex front r back hsplit hboundary
    have hlength : front.length < (inOrder key rows).length := by
      rw [hsplit, List.length_append, List.length_cons]
      omega
    have hrow : (inOrder key rows)[front.length] = r := by
      simp [hsplit]
    rw [← hrow]
    refine hindex front.length hlength (hboundary.imp_right ?_)
    rintro rfl
    rw [hsplit, List.length_append, List.length_singleton]

/-- A page that is not the last one ends with a row that more rows follow. -/
theorem split_page {found : List ρ} (hlimit : 0 < limit) (hmore : limit < found.length) :
    ∃ front r back, found = front ++ r :: back ∧ front.length + 1 = limit ∧ back ≠ [] ∧
      found.take limit = front ++ [r] := by
  have hlt : limit - 1 < found.length := by omega
  refine ⟨found.take (limit - 1), found[limit - 1], found.drop limit, ?_, ?_, ?_, ?_⟩
  · have hdrop := List.drop_eq_getElem_cons hlt
    rw [Nat.sub_add_cancel hlimit] at hdrop
    rw [← hdrop, List.take_append_drop]
  · rw [List.length_take]
    omega
  · intro hnil
    have hlength := congrArg List.length hnil
    rw [List.length_drop, List.length_nil] at hlength
    omega
  · rw [List.take_append_getElem hlt, Nat.sub_add_cancel hlimit]

theorem follow_of_exact (hkeys : (rows.map key).Nodup) (hlimit : 0 < limit)
    (hexact : Exact key mark limit rows) (fuel : Nat) {done todo : List ρ} {cursor : Option κ}
    (hsplit : inOrder key rows = done ++ todo) (hdone : limit ∣ done.length)
    (hrest : rest key rows cursor = todo) (hfuel : todo.length < fuel)
    (htodo : done = [] ∨ todo ≠ []) :
    ∃ last, follow key mark limit rows fuel cursor = some (todo, last) ∧
      rest key rows last = [] := by
  induction fuel generalizing done todo cursor with
  | zero => omega
  | succ fuel ih =>
      unfold follow
      rw [page_eq hkeys, hrest]
      by_cases hmore : limit < todo.length
      · obtain ⟨front, r, back, htodoEq, hlength, hback, htake⟩ := split_page hlimit hmore
        have hsplit' : inOrder key rows = (done ++ front) ++ r :: back := by
          rw [hsplit, htodoEq, List.append_assoc]
        have hrow : mark (key r) = key r := by
          apply hexact _ _ _ hsplit'
          left
          rw [List.length_append, Nat.add_assoc, hlength]
          exact Nat.dvd_add hdone (Nat.dvd_refl limit)
        have hdone' : limit ∣ (done ++ front ++ [r]).length := by
          rw [List.length_append, List.length_append, Nat.add_assoc, List.length_singleton, hlength]
          exact Nat.dvd_add hdone (Nat.dvd_refl limit)
        have hsplit'' : inOrder key rows = (done ++ front ++ [r]) ++ back := by
          rw [hsplit', List.append_assoc _ [r], List.singleton_append]
        have hfuel' : back.length < fuel := by
          rw [htodoEq, List.length_append, List.length_cons] at hfuel
          omega
        obtain ⟨last, hfollow, hlast⟩ :=
          ih hsplit'' hdone' (rest_key hkeys hsplit') hfuel' (.inr hback)
        refine ⟨last, ?_, hlast⟩
        simp only [hmore, decide_true, if_true, htake, List.getLast?_concat, Option.map_some, hrow,
          hfollow]
        rw [htodoEq, List.append_assoc, List.singleton_append]
      · have htake : todo.take limit = todo := List.take_of_length_le (Nat.le_of_not_lt hmore)
        simp only [hmore, decide_false, Bool.false_eq_true, if_false, htake]
        refine ⟨_, rfl, ?_⟩
        rcases List.eq_nil_or_concat todo with rfl | ⟨front, r, rfl⟩
        · have hnil : inOrder key rows = [] := by
            rw [hsplit, htodo.resolve_right (fun h => h rfl)]
            rfl
          rw [rest, hnil]
          rfl
        · have hsplit' : inOrder key rows = (done ++ front) ++ r :: [] := by
            rw [hsplit, List.concat_eq_append, List.append_assoc]
          rw [List.concat_eq_append, List.getLast?_concat, Option.map_some,
            hexact _ _ _ hsplit' (.inr rfl)]
          exact rest_key hkeys hsplit'

/-- A reading starts with the first row behind its cursor. -/
theorem follow_head (hkeys : (rows.map key).Nodup) (hlimit : 0 < limit) {fuel : Nat}
    {cursor last : Option κ} {s : ρ} {more items : List ρ}
    (hrest : rest key rows cursor = s :: more)
    (hfollow : follow key mark limit rows fuel cursor = some (items, last)) :
    ∃ tail, items = s :: tail := by
  cases fuel with
  | zero => cases hfollow
  | succ fuel =>
      obtain ⟨n, rfl⟩ := Nat.exists_eq_add_of_lt hlimit
      unfold follow at hfollow
      rw [page_eq hkeys, hrest, Nat.zero_add, List.take_succ_cons] at hfollow
      dsimp only at hfollow
      split at hfollow
      · obtain ⟨rest', -, heq⟩ := Option.map_eq_some_iff.mp hfollow
        exact ⟨_, (Prod.mk.inj heq).1.symm⟩
      · exact ⟨_, (Prod.mk.inj (Option.some.inj hfollow)).1.symm⟩

/-- Two ways to split a list off at a row. -/
theorem split_at {front front' back back' : List ρ} {r r' : ρ}
    (h : front ++ r :: back = front' ++ r' :: back') :
    front.length < front'.length ∧ back ≠ [] ∨ front = front' ∧ r = r' ∧ back = back' ∨
      ∃ mid, front = front' ++ r' :: mid ∧ back' = mid ++ r :: back := by
  rcases List.append_eq_append_iff.mp h with ⟨mid, hmid, hback⟩ | ⟨mid, hmid, hback⟩
  · cases mid with
    | nil =>
        rw [List.nil_append, List.cons.injEq] at hback
        rw [List.append_nil] at hmid
        exact .inr (.inl ⟨hmid.symm, hback⟩)
    | cons a mid =>
        rw [List.cons_append, List.cons.injEq] at hback
        left
        rw [hmid, hback.2]
        simp
  · cases mid with
    | nil =>
        rw [List.nil_append, List.cons.injEq] at hback
        rw [List.append_nil] at hmid
        exact .inr (.inl ⟨hmid, hback.1.symm, hback.2.symm⟩)
    | cons a mid =>
        rw [List.cons_append, List.cons.injEq] at hback
        exact .inr (.inr ⟨mid, by rw [hmid, hback.1], hback.2⟩)

theorem exact_of_follow (hkeys : (rows.map key).Nodup) (hlimit : 0 < limit)
    (hmark : ∀ k, mark k ≤ k) (fuel : Nat) {done todo : List ρ} {cursor last : Option κ}
    (hsplit : inOrder key rows = done ++ todo) (hrest : rest key rows cursor = todo)
    (hfollow : follow key mark limit rows fuel cursor = some (todo, last))
    (hlast : rest key rows last = []) {front back : List ρ} {r : ρ}
    (htodo : todo = front ++ r :: back) (hboundary : limit ∣ front.length + 1 ∨ back = []) :
    mark (key r) = key r := by
  induction fuel generalizing done todo cursor front with
  | zero => cases hfollow
  | succ fuel ih =>
      have hlower : ∀ {front₁ back₁ : List ρ} {r₁ : ρ},
          inOrder key rows = front₁ ++ r₁ :: back₁ → mark (key r₁) ≠ key r₁ →
            ∃ s more, rest key rows (some (mark (key r₁))) = s :: more ∧ s ∈ front₁ ++ [r₁] :=
        fun h hne => rest_mark h (lt_of_le_of_ne (hmark _) hne)
      unfold follow at hfollow
      rw [page_eq hkeys, hrest] at hfollow
      by_cases hmore : limit < todo.length
      · obtain ⟨front₁, r₁, back₁, htodo₁, hlength, -, htake⟩ := split_page hlimit hmore
        simp only [hmore, decide_true, if_true, htake, List.getLast?_concat, Option.map_some]
          at hfollow
        obtain ⟨⟨items, last'⟩, hnext, heq⟩ := Option.map_eq_some_iff.mp hfollow
        obtain ⟨hitems, rfl⟩ := Prod.mk.inj heq
        dsimp only at hitems hlast
        rw [htodo₁, List.append_assoc, List.singleton_append, List.append_right_inj,
          List.cons.injEq] at hitems
        obtain ⟨-, rfl⟩ := hitems
        have hsplit₁ : inOrder key rows = (done ++ front₁) ++ r₁ :: items := by
          rw [hsplit, htodo₁, List.append_assoc]
        -- Had the cursor lost something, the next page would start before its first row.
        have hrow : mark (key r₁) = key r₁ := by
          by_contra hne
          obtain ⟨s, more, hrest', hs⟩ := hlower hsplit₁ hne
          obtain ⟨tail, rfl⟩ := follow_head hkeys hlimit hrest' hnext
          have hsorted := pairwise_lt_inOrder hkeys
          rw [hsplit₁, List.append_cons, List.pairwise_append] at hsorted
          exact lt_irrefl _ (hsorted.2.2 s hs s List.mem_cons_self)
        rw [hrow] at hnext
        rcases split_at (htodo.symm.trans htodo₁) with ⟨hlt, hback⟩ | ⟨-, rfl, -⟩ | ⟨mid, rfl, hmid⟩
        · have hle := Nat.le_of_dvd (Nat.succ_pos _) (hboundary.resolve_right hback)
          omega
        · exact hrow
        · have hsplit₂ : inOrder key rows = (done ++ front₁ ++ [r₁]) ++ items := by
            rw [hsplit₁, List.append_assoc _ [r₁], List.singleton_append]
          refine ih hsplit₂ (rest_key hkeys hsplit₁) hnext hmid (hboundary.imp_left ?_)
          intro hdvd
          have hlengths : (front₁ ++ r₁ :: mid).length + 1 = limit + (mid.length + 1) := by
            rw [List.length_append, List.length_cons]
            omega
          rw [hlengths] at hdvd
          exact (Nat.dvd_add_right (Nat.dvd_refl limit)).mp hdvd
      · have htake : todo.take limit = todo := List.take_of_length_le (Nat.le_of_not_lt hmore)
        simp only [hmore, decide_false, Bool.false_eq_true, if_false, htake] at hfollow
        have hend := (Prod.mk.inj (Option.some.inj hfollow)).2
        -- The boundary is the last row of the table.
        have hback : back = [] := by
          rcases hboundary with hdvd | hback
          · have hle := Nat.le_of_dvd (Nat.succ_pos _) hdvd
            rw [htodo, List.length_append, List.length_cons] at hmore
            exact List.eq_nil_of_length_eq_zero (by omega)
          · exact hback
        subst hback
        have hsplit' : inOrder key rows = (done ++ front) ++ r :: [] := by
          rw [hsplit, htodo, List.append_assoc]
        rw [htodo, List.getLast?_concat, Option.map_some] at hend
        by_contra hne
        obtain ⟨s, more, hrest', -⟩ := hlower hsplit' hne
        rw [hend, hlast] at hrest'
        cases hrest'

/-- A reading from the start comes to an end with every row once and in order, and finds
nothing more, exactly when the cursors keep the keys of the rows they are made from. -/
theorem follow_exact_iff (hkeys : (rows.map key).Nodup) (hlimit : 0 < limit)
    (hmark : ∀ k, mark k ≤ k) :
    (∃ fuel last, follow key mark limit rows fuel none = some (inOrder key rows, last) ∧
        (page key mark limit rows last).items = []) ↔ Exact key mark limit rows := by
  have hempty : ∀ last, (page key mark limit rows last).items = [] ↔
      rest key rows last = [] := by
    intro last
    rw [page_eq hkeys]
    simp only [List.take_eq_nil_iff, Nat.ne_of_gt hlimit, false_or]
  constructor
  · rintro ⟨fuel, last, hfollow, hlast⟩ front r back hsplit hboundary
    exact exact_of_follow hkeys hlimit hmark fuel (List.nil_append _).symm rest_none hfollow
      ((hempty last).mp hlast) hsplit hboundary
  · intro hexact
    obtain ⟨last, hfollow, hlast⟩ := follow_of_exact hkeys hlimit hexact
      ((inOrder key rows).length + 1) (List.nil_append _).symm (Nat.dvd_zero limit) rest_none
      (Nat.lt_succ_self _) (.inl rfl)
    exact ⟨_, last, hfollow, (hempty last).mpr hlast⟩

end Follow

end ExternalStorage.Library.Paging
