import ExternalStorage.Library.Paging
import Mathlib.Data.List.Forall2

/-!
# Pages of a table that changes

A reader follows the cursors of a keyset list while others write: each page is taken from the table
as it is by then.  Nothing comes twice, and a key that stays in the table comes.
-/

namespace ExternalStorage.Library.LivePages

open Paging

variable {ρ κ : Type*} [LinearOrder κ] (key : ρ → κ)

/-- The pages that a reader gets, each from the next table; `none` unless the last table is read to
its end, and no other is. -/
def readLive (limit : Nat) : List (List ρ) → Option κ → Option (List (List ρ))
  | [], _ => none
  | rows :: later, cursor =>
      let p := page key id limit rows cursor
      if p.more then (readLive limit later p.next).map (p.items :: ·)
      else if later.isEmpty then some [p.items]
      else none

/-- What a reader can rely on. -/
structure ReadsLive (tables pages : List (List ρ)) : Prop where
  ascending : pages.flatten.Pairwise fun r s => key r < key s
  current : List.Forall₂ (fun rows page => ∀ r ∈ page, r ∈ rows) tables pages
  complete : ∀ k, (∀ rows ∈ tables, k ∈ rows.map key) → k ∈ pages.flatten.map key

section Read

variable {key} {limit : Nat} {rows : List ρ} {cursor : Option κ}

theorem pairwise_rest (hkeys : (rows.map key).Nodup) :
    (rest key rows cursor).Pairwise fun r s => key r < key s :=
  (pairwise_lt_inOrder hkeys).sublist List.filter_sublist

theorem pairwise_page (hkeys : (rows.map key).Nodup) :
    (page key id limit rows cursor).items.Pairwise fun r s => key r < key s := by
  rw [page_eq hkeys]
  exact (pairwise_rest hkeys).sublist (List.take_sublist limit _)

theorem lt_of_behind_page (hlimit : 0 < limit) (hkeys : (rows.map key).Nodup)
    (hmore : (page key id limit rows cursor).more = true) {r s : ρ}
    (hr : r ∈ (page key id limit rows cursor).items)
    (hs : behind key (page key id limit rows cursor).next s = true) : key r < key s := by
  rw [page_eq hkeys] at hmore hr hs
  obtain ⟨front, l, back, hsplit, -, -, htake⟩ := split_page hlimit (of_decide_eq_true hmore)
  rw [htake] at hr hs
  rw [List.getLast?_concat, Option.map_some] at hs
  have hlast : key l < key s := of_decide_eq_true hs
  have hsorted : (front ++ [l]).Pairwise fun r s => key r < key s := by
    rw [← htake]
    exact (pairwise_rest hkeys).sublist (List.take_sublist limit _)
  rcases List.mem_append.mp hr with hfront | hl
  · have hrl := (List.pairwise_append.mp hsorted).2.2 r hfront l (List.mem_singleton.mpr rfl)
    exact hrl.trans hlast
  · rwa [List.mem_singleton.mp hl]

/-- The cursor of a page with more behind it is the key of one of its rows. -/
theorem next_of_more (hlimit : 0 < limit) (hkeys : (rows.map key).Nodup)
    (hmore : (page key id limit rows cursor).more = true) :
    ∃ r ∈ (page key id limit rows cursor).items,
      (page key id limit rows cursor).next = some (key r) := by
  rw [page_eq hkeys] at hmore ⊢
  obtain ⟨front, l, back, -, -, -, htake⟩ := split_page hlimit (of_decide_eq_true hmore)
  refine ⟨l, by rw [htake]; simp, ?_⟩
  dsimp only
  rw [htake, List.getLast?_concat]
  rfl

/-- As many requests as there are keys, and one more, are enough: each page with more behind it
leaves a key behind. -/
theorem exists_readLive (hlimit : 0 < limit) {tables : List (List ρ)}
    (hkeys : ∀ rows ∈ tables, (rows.map key).Nodup) {keys : List κ}
    (hall : ∀ rows ∈ tables, ∀ r ∈ rows, key r ∈ keys)
    (hlength : (keys.filter fun k => cursor.all fun c => c < k).length < tables.length) :
    ∃ n pages, readLive key limit (tables.take n) cursor = some pages := by
  induction tables generalizing cursor with
  | nil => exact absurd hlength (Nat.not_lt_zero _)
  | cons rows later ih =>
      obtain ⟨hrows, hlater⟩ := List.forall_mem_cons.mp hkeys
      obtain ⟨hhere, hall'⟩ := List.forall_mem_cons.mp hall
      by_cases hmore : (page key id limit rows cursor).more = true
      · obtain ⟨r, hr, hnext⟩ := next_of_more hlimit hrows hmore
        have hbehind : (cursor.all fun c => decide (c < key r)) = true := by
          have := behind_of_mem_page hrows hr
          cases cursor with
          | none => rfl
          | some c => exact this
        have hfewer : (keys.filter fun k => (some (key r)).all fun c => c < k).length <
            (keys.filter fun k => cursor.all fun c => c < k).length := by
          have hafter : (keys.filter fun k => (some (key r)).all fun c => c < k) =
              (keys.filter fun k => cursor.all fun c => c < k).filter fun k => key r < k := by
            rw [List.filter_filter]
            refine List.filter_congr fun k _ => ?_
            cases cursor with
            | none => simp
            | some c =>
                have hc : c < key r := of_decide_eq_true hbehind
                have hiff : key r < k ↔ key r < k ∧ c < k :=
                  ⟨fun hk => ⟨hk, hc.trans hk⟩, And.left⟩
                simpa using hiff
          rw [hafter]
          refine List.length_filter_lt_length_iff_exists.mpr ⟨key r, ?_, by simp⟩
          exact List.mem_filter.mpr ⟨hhere r (mem_of_mem_page hr), hbehind⟩
        rw [List.length_cons] at hlength
        obtain ⟨n, pages, hread⟩ := ih hlater hall' (hfewer.trans_le (Nat.le_of_lt_succ hlength))
        refine ⟨n + 1, (page key id limit rows cursor).items :: pages, ?_⟩
        rw [List.take_succ_cons, readLive]
        simp only [hmore, if_true, hnext, hread, Option.map_some]
      · refine ⟨1, [(page key id limit rows cursor).items], ?_⟩
        rw [List.take_succ_cons, List.take_zero, readLive]
        simp only [hmore, Bool.false_eq_true, if_false, List.isEmpty_nil, if_true]

theorem behind_of_behind_page (hlimit : 0 < limit) (hkeys : (rows.map key).Nodup)
    (hmore : (page key id limit rows cursor).more = true) {s : ρ}
    (hs : behind key (page key id limit rows cursor).next s = true) :
    behind key cursor s = true := by
  have hlt : ∀ r ∈ (page key id limit rows cursor).items, key r < key s := fun r hr =>
    lt_of_behind_page hlimit hkeys hmore hr hs
  have hbehind : ∀ r ∈ (page key id limit rows cursor).items, behind key cursor r = true :=
    fun r hr => behind_of_mem_page hkeys hr
  have hitem : ∃ r, r ∈ (page key id limit rows cursor).items := by
    rw [page_eq hkeys] at hmore ⊢
    obtain ⟨front, l, back, -, -, -, htake⟩ := split_page hlimit (of_decide_eq_true hmore)
    exact ⟨l, by rw [htake]; simp⟩
  obtain ⟨r, hr⟩ := hitem
  cases cursor with
  | none => rfl
  | some c => exact decide_eq_true ((of_decide_eq_true (hbehind r hr)).trans (hlt r hr))

variable {tables pages : List (List ρ)}

theorem behind_of_mem_readLive (hlimit : 0 < limit)
    (hkeys : ∀ rows ∈ tables, (rows.map key).Nodup)
    (h : readLive key limit tables cursor = some pages) :
    ∀ r ∈ pages.flatten, behind key cursor r = true := by
  induction tables generalizing cursor pages with
  | nil => cases h
  | cons rows later ih =>
      obtain ⟨hrows, hlater⟩ := List.forall_mem_cons.mp hkeys
      unfold readLive at h
      dsimp only at h
      split at h
      · rename_i hmore
        obtain ⟨pages', hread, rfl⟩ := Option.map_eq_some_iff.mp h
        intro r hr
        rw [List.flatten_cons, List.mem_append] at hr
        rcases hr with hitem | hnext
        · exact behind_of_mem_page hrows hitem
        · exact behind_of_behind_page hlimit hrows hmore (ih hlater hread r hnext)
      · split at h
        · cases h
          intro r hr
          rw [List.flatten_singleton] at hr
          exact behind_of_mem_page hrows hr
        · cases h

theorem pairwise_readLive (hlimit : 0 < limit) (hkeys : ∀ rows ∈ tables, (rows.map key).Nodup)
    (h : readLive key limit tables cursor = some pages) :
    pages.flatten.Pairwise fun r s => key r < key s := by
  induction tables generalizing cursor pages with
  | nil => cases h
  | cons rows later ih =>
      obtain ⟨hrows, hlater⟩ := List.forall_mem_cons.mp hkeys
      unfold readLive at h
      dsimp only at h
      split at h
      · rename_i hmore
        obtain ⟨pages', hread, rfl⟩ := Option.map_eq_some_iff.mp h
        rw [List.flatten_cons, List.pairwise_append]
        refine ⟨pairwise_page hrows, ih hlater hread, fun r hr s hs => ?_⟩
        exact lt_of_behind_page hlimit hrows hmore hr
          (behind_of_mem_readLive hlimit hlater hread s hs)
      · split at h
        · cases h
          rw [List.flatten_singleton]
          exact pairwise_page hrows
        · cases h

theorem current_readLive (h : readLive key limit tables cursor = some pages) :
    List.Forall₂ (fun rows page => ∀ r ∈ page, r ∈ rows) tables pages := by
  induction tables generalizing cursor pages with
  | nil => cases h
  | cons rows later ih =>
      unfold readLive at h
      dsimp only at h
      split at h
      · obtain ⟨pages', hread, rfl⟩ := Option.map_eq_some_iff.mp h
        exact .cons (fun r hr => mem_of_mem_page hr) (ih hread)
      · split at h
        · rename_i hlast
          cases h
          rw [List.isEmpty_iff.mp hlast]
          exact .cons (fun r hr => mem_of_mem_page hr) .nil
        · cases h

/-- A key behind the cursor that is in each table comes on one of the pages. -/
theorem complete_readLive (hkeys : ∀ rows ∈ tables, (rows.map key).Nodup)
    (h : readLive key limit tables cursor = some pages) {k : κ} (hk : ∀ c ∈ cursor, c < k)
    (hall : ∀ rows ∈ tables, k ∈ rows.map key) : k ∈ pages.flatten.map key := by
  induction tables generalizing cursor pages with
  | nil => cases h
  | cons rows later ih =>
      obtain ⟨hrows, hlater⟩ := List.forall_mem_cons.mp hkeys
      obtain ⟨hhere, hall'⟩ := List.forall_mem_cons.mp hall
      obtain ⟨r, hr, rfl⟩ := List.mem_map.mp hhere
      have hbehind : behind key cursor r = true := by
        cases cursor with
        | none => rfl
        | some c => exact decide_eq_true (hk c rfl)
      unfold readLive at h
      dsimp only at h
      split at h
      · obtain ⟨pages', hread, rfl⟩ := Option.map_eq_some_iff.mp h
        rw [List.flatten_cons, List.map_append, List.mem_append]
        have hpage : r ∈ (page key id limit rows cursor).items ∨
            behind key ((page key id limit rows cursor).next.or cursor) r = true :=
          mem_page_or_behind hrows (fun k => le_refl k) hr hbehind
        rcases hpage with hitem | hnext
        · exact .inl (List.mem_map_of_mem hitem)
        · refine .inr (ih hlater hread ?_ hall')
          intro c hc
          rw [hc, Option.some_or] at hnext
          exact of_decide_eq_true hnext
      · rename_i hmore
        split at h
        · cases h
          rw [List.flatten_singleton]
          exact List.mem_map_of_mem (mem_page_of_last hrows hr hbehind (by simpa using hmore))
        · cases h

theorem readsLive (hlimit : 0 < limit) (hkeys : ∀ rows ∈ tables, (rows.map key).Nodup)
    (h : readLive key limit tables none = some pages) : ReadsLive key tables pages :=
  ⟨pairwise_readLive hlimit hkeys h, current_readLive h,
    fun _ hall => complete_readLive hkeys h (fun _ hc => by cases hc) hall⟩

theorem nodup_of_pairwise_key {items : List ρ} (h : items.Pairwise fun r s => key r < key s) :
    items.Nodup := by
  refine List.Pairwise.imp ?_ h
  rintro r s hlt rfl
  exact lt_irrefl _ hlt

/-- A table that nobody changes is read as it is, in its order. -/
theorem ReadsLive.unchanged (h : ReadsLive key tables pages) (hkeys : (rows.map key).Nodup)
    (hsame : ∀ t ∈ tables, ∀ r, r ∈ t ↔ r ∈ rows) : pages.flatten = inOrder key rows := by
  have hsub : ∀ r ∈ pages.flatten, r ∈ rows := by
    intro r hr
    obtain ⟨page, hpage, hr⟩ := List.mem_flatten.mp hr
    obtain ⟨i, hi, rfl⟩ := List.getElem_of_mem hpage
    have hlt : i < tables.length := by rw [h.current.length_eq]; exact hi
    have hhere := (List.forall₂_iff_get.mp h.current).2 i hlt hi r hr
    exact (hsame _ (List.getElem_mem hlt) r).mp hhere
  have hmem : ∀ r, r ∈ pages.flatten ↔ r ∈ inOrder key rows := by
    intro r
    rw [(perm_inOrder rows).mem_iff]
    refine ⟨hsub r, fun hr => ?_⟩
    obtain ⟨s, hs, hkey⟩ := List.mem_map.mp (h.complete (key r) fun t ht =>
      List.mem_map_of_mem ((hsame t ht r).mpr hr))
    rwa [← List.inj_on_of_nodup_map hkeys (hsub s hs) hr hkey]
  have hordered := pairwise_lt_inOrder hkeys
  exact List.Perm.eq_of_pairwise (fun r s _ _ hrs hsr => absurd hrs hsr.asymm) h.ascending hordered
    ((List.perm_ext_iff_of_nodup (nodup_of_pairwise_key h.ascending)
      (nodup_of_pairwise_key hordered)).mpr hmem)

end Read

end ExternalStorage.Library.LivePages
