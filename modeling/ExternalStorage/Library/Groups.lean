import Mathlib.Algebra.BigOperators.Group.List.Basic
import Mathlib.Data.List.Dedup

/-!
# Joins and groups

`LEFT JOIN` and `GROUP BY` over tables as lists.  The groups and the rows without a key make up the
table, so a sum over the table is the sum over the groups and those rows.
-/

namespace ExternalStorage.Library.Groups

variable {α β γ κ M : Type*}

/-- A row that nothing matches is kept alone. -/
def leftJoin (on : α → β → Bool) (as : List α) (bs : List β) : List (α × Option β) :=
  as.flatMap fun a =>
    match bs.filter (on a) with
    | [] => [(a, none)]
    | matched => matched.map fun b => (a, some b)

section Group

variable [DecidableEq κ] (key : α → Option κ)

/-- A row whose key is `NULL` is in no group. -/
def groupKeys (rows : List α) : List κ := (rows.filterMap key).dedup

def groupOf (rows : List α) (k : κ) : List α := rows.filter fun r => key r = some k

def groupBy (aggregate : κ → List α → γ) (rows : List α) : List γ :=
  (groupKeys key rows).map fun k => aggregate k (groupOf key rows k)

variable {key}

theorem mem_groupKeys {rows : List α} {k : κ} :
    k ∈ groupKeys key rows ↔ ∃ r ∈ rows, key r = some k := by
  rw [groupKeys, List.mem_dedup, List.mem_filterMap]

theorem nodup_groupKeys (rows : List α) : (groupKeys key rows).Nodup := List.nodup_dedup _

theorem sum_groupOf_cons [AddCommMonoid M] (f : α → M) (r : α) (rows : List α) (k : κ) :
    ((groupOf key (r :: rows) k).map f).sum =
      (if key r = some k then f r else 0) + ((groupOf key rows k).map f).sum := by
  unfold groupOf
  by_cases h : key r = some k
  · rw [List.filter_cons_of_pos (by simpa using h), List.map_cons, List.sum_cons, if_pos h]
  · rw [List.filter_cons_of_neg (by simpa using h), if_neg h, zero_add]

/-- A row counts for its own group. -/
theorem sum_if_key [AddCommMonoid M] {keys : List κ} (hkeys : keys.Nodup) {k : κ} (hk : k ∈ keys)
    (x : M) : (keys.map fun k' => if some k = some k' then x else 0).sum = x := by
  have hzero : ∀ keys : List κ, k ∉ keys →
      (keys.map fun k' => if some k = some k' then x else 0).sum = 0 := by
    intro keys hnot
    refine List.sum_eq_zero fun y hy => ?_
    obtain ⟨k', hk', rfl⟩ := List.mem_map.mp hy
    rw [if_neg]
    intro heq
    exact hnot (Option.some.inj heq ▸ hk')
  induction keys with
  | nil => cases hk
  | cons k' keys ih =>
      obtain ⟨hnot, hnodup⟩ := List.nodup_cons.mp hkeys
      rw [List.map_cons, List.sum_cons]
      rcases List.mem_cons.mp hk with rfl | hmem
      · rw [if_pos rfl, hzero keys hnot, add_zero]
      · have hne : some k ≠ some k' := by
          rintro ⟨⟩
          exact hnot hmem
        rw [if_neg hne, zero_add, ih hnodup hmem]

theorem sum_groups [AddCommMonoid M] (f : α → M) {keys : List κ} (hkeys : keys.Nodup)
    (rows : List α) (hrows : ∀ r ∈ rows, ∀ k ∈ key r, k ∈ keys) :
    (keys.map fun k => ((groupOf key rows k).map f).sum).sum +
      ((rows.filter fun r => key r = none).map f).sum = (rows.map f).sum := by
  induction rows with
  | nil =>
      rw [List.filter_nil, List.map_nil, List.sum_nil, add_zero]
      refine List.sum_eq_zero fun y hy => ?_
      obtain ⟨k, -, rfl⟩ := List.mem_map.mp hy
      rfl
  | cons r rows ih =>
      obtain ⟨hr, hrest⟩ := List.forall_mem_cons.mp hrows
      have hsplit : (keys.map fun k => ((groupOf key (r :: rows) k).map f).sum).sum =
          (keys.map fun k => if key r = some k then f r else 0).sum +
            (keys.map fun k => ((groupOf key rows k).map f).sum).sum := by
        rw [← List.sum_map_add]
        exact congrArg List.sum (List.map_congr_left fun k _ => sum_groupOf_cons f r rows k)
      rw [hsplit, List.map_cons, List.sum_cons, ← ih hrest]
      cases hkey : key r with
      | none =>
          have hzero :
              (keys.map fun k => if (none : Option κ) = some k then f r else 0).sum = 0 := by
            simp
          rw [List.filter_cons_of_pos (by simpa using hkey), List.map_cons, List.sum_cons, hzero,
            zero_add]
          exact add_left_comm _ _ _
      | some k =>
          rw [List.filter_cons_of_neg (by simp [hkey]), sum_if_key hkeys (hr k hkey) (f r),
            add_assoc]

theorem groupBy_filter (aggregate : κ → List α → γ) (wanted : κ → Bool) (rows : List α) :
    groupBy key aggregate (rows.filter fun r => (key r).any wanted) =
      ((groupKeys key rows).filter wanted).map fun k => aggregate k (groupOf key rows k) := by
  have hkeys : groupKeys key (rows.filter fun r => (key r).any wanted) =
      (groupKeys key rows).filter wanted := by
    have hmap : (rows.filter fun r => (key r).any wanted).filterMap key =
        (rows.filterMap key).filter wanted := by
      rw [List.filterMap_filter, List.filter_filterMap]
      congr 1
      funext r
      cases key r with
      | none => rfl
      | some k => simp [Option.filter]
    rw [groupKeys, hmap, groupKeys]
    induction rows.filterMap key with
    | nil => rfl
    | cons k ks ih =>
        by_cases hmem : k ∈ ks
        · rw [List.dedup_cons_of_mem hmem]
          by_cases hwanted : wanted k = true
          · rw [List.filter_cons_of_pos hwanted,
              List.dedup_cons_of_mem (List.mem_filter.mpr ⟨hmem, hwanted⟩), ih]
          · rw [List.filter_cons_of_neg hwanted, ih]
        · rw [List.dedup_cons_of_notMem hmem]
          by_cases hwanted : wanted k = true
          · rw [List.filter_cons_of_pos hwanted, List.filter_cons_of_pos hwanted,
              List.dedup_cons_of_notMem fun h => hmem (List.mem_filter.mp h).1, ih]
          · rw [List.filter_cons_of_neg hwanted, List.filter_cons_of_neg hwanted, ih]
  rw [groupBy, hkeys]
  refine List.map_congr_left fun k hk => congrArg (aggregate k) ?_
  unfold groupOf
  rw [List.filter_filter]
  refine List.filter_congr fun r _ => ?_
  by_cases hkey : key r = some k
  · simp [hkey, (List.mem_filter.mp hk).2]
  · simp [hkey]

end Group

end ExternalStorage.Library.Groups
