import Mathlib.Data.List.Sort

/-!
# Sorting by a key

A sort by a key may leave rows of equal keys in any order.  Where the keys of one side are
distinct, two sorts give one list exactly if they were given the same rows.
-/

namespace ExternalStorage.Library.Sorting

variable {ρ κ : Type*} [LinearOrder κ]

/-- A sort by a key that promises nothing about equal keys. -/
structure SortBy (key : ρ → κ) where
  sort : List ρ → List ρ
  perm : ∀ rows, (sort rows).Perm rows
  sorted : ∀ rows, (sort rows).Pairwise fun r s => key r ≤ key s

section Results

variable {key : ρ → κ}

def SortBy.insertion (key : ρ → κ) : SortBy key where
  sort rows := rows.insertionSort fun r s => key r ≤ key s
  perm rows := List.perm_insertionSort _ rows
  sorted rows := by
    have htotal : Std.Total (fun r s : ρ => key r ≤ key s) := ⟨fun r s => le_total _ _⟩
    have htrans : IsTrans ρ (fun r s : ρ => key r ≤ key s) := ⟨fun r s t => le_trans⟩
    exact List.pairwise_insertionSort _ rows

/-- Rows of different keys come out in strict order. -/
theorem SortBy.pairwise_lt (s : SortBy key) {rows : List ρ} (hkeys : (rows.map key).Nodup) :
    (s.sort rows).Pairwise fun r s => key r < key s := by
  have hdistinct : (s.sort rows).Pairwise fun r s => key r ≠ key s :=
    List.pairwise_map.mp (((s.perm rows).map key).nodup_iff.mpr hkeys)
  exact ((s.sorted rows).and hdistinct).imp fun h => lt_of_le_of_ne h.1 h.2

theorem SortBy.sort_eq_iff (s t : SortBy key) {rows rows' : List ρ}
    (hkeys : (rows.map key).Nodup) : s.sort rows = t.sort rows' ↔ rows.Perm rows' := by
  constructor
  · intro h
    calc rows.Perm (s.sort rows) := (s.perm rows).symm
      _ = t.sort rows' := h
      List.Perm _ rows' := t.perm rows'
  · intro h
    have hkeys' : (rows'.map key).Nodup := (h.map key).nodup_iff.mp hkeys
    have hperm : (s.sort rows).Perm (t.sort rows') :=
      (s.perm rows).trans (h.trans (t.perm rows').symm)
    exact hperm.eq_of_pairwise (fun r r' _ _ hlt hgt => absurd hlt hgt.asymm)
      (s.pairwise_lt hkeys) (t.pairwise_lt hkeys')

end Results

/-- A comparison that orders the rows at hand sorts them, whatever it does to others. -/
theorem pairwise_mergeSort_of_mem {le : ρ → ρ → Bool} {rows : List ρ}
    (htrans : ∀ r ∈ rows, ∀ s ∈ rows, ∀ t ∈ rows, le r s = true → le s t = true → le r t = true)
    (htotal : ∀ r ∈ rows, ∀ s ∈ rows, le r s = true ∨ le s r = true) :
    (rows.mergeSort le).Pairwise fun r s => le r s = true := by
  -- the same sort of the rows as members of the list
  have hsort := List.map_mergeSort (l := rows.attach) (f := Subtype.val)
    (r := fun r s => le r.1 s.1) (s := le) fun _ _ _ _ => rfl
  rw [List.attach_map_subtype_val] at hsort
  rw [← hsort, List.pairwise_map]
  apply List.pairwise_mergeSort
  · exact fun r s t => htrans r.1 r.2 s.1 s.2 t.1 t.2
  · intro r s
    rw [Bool.or_eq_true]
    exact htotal r.1 r.2 s.1 s.2

end ExternalStorage.Library.Sorting
