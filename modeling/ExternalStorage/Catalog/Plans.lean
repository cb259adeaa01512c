import ExternalStorage.Library.Sorting
import ExternalStorage.Model.Reconciliation
import Mathlib.Data.String.Basic

/-!
# Reconcile plans

`build_reconcile_plan` goes over the folders with a map from codes to the active problems, and
over the active problems with the set of folders.  Between them the three lists hold each folder
and each active problem once.
-/

namespace ExternalStorage.Catalog

open ExternalStorage.Model Library.Sorting

def activeCatalog (catalog : List CatalogProblem) : List CatalogProblem :=
  catalog.filter fun p => p.catalogState.listed

/-- No two active problems have one code. -/
def DistinctCodes (catalog : List CatalogProblem) : Prop :=
  ((activeCatalog catalog).map CatalogProblem.code).Nodup

instance (catalog : List CatalogProblem) : Decidable (DistinctCodes catalog) :=
  inferInstanceAs (Decidable (List.Nodup _))

section

variable {folders : List String} {catalog : List CatalogProblem} {p : CatalogProblem}

theorem mem_of_problemByCode {active : List CatalogProblem} {code : String}
    (h : problemByCode active code = some p) : p ∈ active ∧ p.code = code := by
  unfold problemByCode at h
  have hcode := List.find?_some h
  exact ⟨List.mem_reverse.mp (List.mem_of_find?_eq_some h), of_decide_eq_true hcode⟩

theorem problemByCode_eq_some (hcodes : DistinctCodes catalog) {code : String} :
    problemByCode (activeCatalog catalog) code = some p ↔
      p ∈ activeCatalog catalog ∧ p.code = code := by
  constructor
  · exact mem_of_problemByCode
  · rintro ⟨hp, hcode⟩
    have hfound : (problemByCode (activeCatalog catalog) code).isSome = true :=
      List.find?_isSome.mpr ⟨p, List.mem_reverse.mpr hp, decide_eq_true hcode⟩
    obtain ⟨q, hq⟩ := Option.isSome_iff_exists.mp hfound
    obtain ⟨hmem, hsame⟩ := mem_of_problemByCode hq
    rw [hq, List.inj_on_of_nodup_map hcodes hmem hp (hsame.trans hcode.symm)]

theorem filterMap_problemByCode_codes (active : List CatalogProblem) (folders : List String) :
    (folders.filterMap (problemByCode active)).map CatalogProblem.code =
      folders.filter fun folder => (problemByCode active folder).isSome := by
  induction folders with
  | nil => rfl
  | cons folder folders ih =>
      cases hfound : problemByCode active folder with
      | none =>
          rw [List.filterMap_cons_none hfound, ih, List.filter_cons_of_neg]
          rw [hfound]
          decide
      | some p =>
          have hcode : p.code = folder := (mem_of_problemByCode hfound).2
          rw [List.filterMap_cons_some hfound, List.map_cons, hcode, ih, List.filter_cons_of_pos]
          rw [hfound]
          rfl

theorem buildReconcilePlan_eq (folders : List String) (catalog : List CatalogProblem) :
    buildReconcilePlan folders catalog =
      { knownPresent := (SortBy.insertion CatalogProblem.code).sort
          (folders.filterMap (problemByCode (activeCatalog catalog)))
        missingKnown := (SortBy.insertion CatalogProblem.code).sort
          ((activeCatalog catalog).filter fun p => p.code ∉ folders)
        orphans := (SortBy.insertion id).sort
          (folders.filter fun folder => (problemByCode (activeCatalog catalog) folder).isNone) } :=
  rfl

theorem mem_knownPresent (hcodes : DistinctCodes catalog) :
    p ∈ folders.filterMap (problemByCode (activeCatalog catalog)) ↔
      p ∈ activeCatalog catalog ∧ p.code ∈ folders := by
  rw [List.mem_filterMap]
  constructor
  · rintro ⟨folder, hfolder, hfound⟩
    obtain ⟨hmem, rfl⟩ := mem_of_problemByCode hfound
    exact ⟨hmem, hfolder⟩
  · rintro ⟨hmem, hfolder⟩
    exact ⟨p.code, hfolder, (problemByCode_eq_some hcodes).mpr ⟨hmem, rfl⟩⟩

theorem nodup_knownPresent_codes (hfolders : folders.Nodup) (active : List CatalogProblem) :
    ((folders.filterMap (problemByCode active)).map CatalogProblem.code).Nodup := by
  rw [filterMap_problemByCode_codes]
  exact hfolders.sublist List.filter_sublist

theorem nodup_missingKnown_codes (hcodes : DistinctCodes catalog) :
    (((activeCatalog catalog).filter fun p => p.code ∉ folders).map
      CatalogProblem.code).Nodup :=
  hcodes.sublist (List.filter_sublist.map CatalogProblem.code)

/-! ## The partitions -/

theorem folders_partition (folders : List String) (catalog : List CatalogProblem) :
    ((buildReconcilePlan folders catalog).knownPresent.map CatalogProblem.code ++
      (buildReconcilePlan folders catalog).orphans).Perm folders := by
  rw [buildReconcilePlan_eq]
  have hknown := ((SortBy.insertion CatalogProblem.code).perm
    (folders.filterMap (problemByCode (activeCatalog catalog)))).map CatalogProblem.code
  rw [filterMap_problemByCode_codes] at hknown
  refine (hknown.append ((SortBy.insertion id).perm _)).trans ?_
  have hsplit := List.filter_append_perm
    (fun folder => (problemByCode (activeCatalog catalog) folder).isSome) folders
  simpa only [Option.not_isSome] using hsplit

theorem problems_partition (hfolders : folders.Nodup) (hcodes : DistinctCodes catalog) :
    ((buildReconcilePlan folders catalog).knownPresent ++
      (buildReconcilePlan folders catalog).missingKnown).Perm (activeCatalog catalog) := by
  rw [buildReconcilePlan_eq]
  -- the problems found for the folders are those of the other filter
  have hknown : (folders.filterMap (problemByCode (activeCatalog catalog))).Perm
      ((activeCatalog catalog).filter fun p => p.code ∈ folders) := by
    apply (List.perm_ext_iff_of_nodup ?_ ?_).mpr
    · intro p
      rw [mem_knownPresent hcodes, List.mem_filter, decide_eq_true_eq]
    · exact List.Nodup.of_map _ (nodup_knownPresent_codes hfolders _)
    · exact (List.Nodup.of_map _ hcodes).sublist List.filter_sublist
  have hsplit := List.filter_append_perm (fun p : CatalogProblem => decide (p.code ∈ folders))
    (activeCatalog catalog)
  refine List.Perm.trans ?_ hsplit
  apply List.Perm.append
  · exact ((SortBy.insertion CatalogProblem.code).perm _).trans hknown
  · simpa only [decide_not] using (SortBy.insertion CatalogProblem.code).perm
      ((activeCatalog catalog).filter fun p => p.code ∉ folders)

theorem buildReconcilePlan_congr {folders' : List String} {catalog' : List CatalogProblem}
    (hfolders : folders.Nodup) (hfolders' : folders'.Nodup) (hcodes : DistinctCodes catalog)
    (hcodes' : DistinctCodes catalog') (hsame : ∀ folder, folder ∈ folders ↔ folder ∈ folders')
    (hproblems : ∀ p, p ∈ catalog ↔ p ∈ catalog') :
    buildReconcilePlan folders catalog = buildReconcilePlan folders' catalog' := by
  have hactive : ∀ p, p ∈ activeCatalog catalog ↔ p ∈ activeCatalog catalog' := by
    intro p
    rw [activeCatalog, activeCatalog, List.mem_filter, List.mem_filter, hproblems]
  have hby : problemByCode (activeCatalog catalog) = problemByCode (activeCatalog catalog') := by
    funext code
    apply Option.ext
    intro p
    rw [problemByCode_eq_some hcodes, problemByCode_eq_some hcodes', hactive]
  have hperm : folders.Perm folders' := (List.perm_ext_iff_of_nodup hfolders hfolders').mpr hsame
  rw [buildReconcilePlan_eq, buildReconcilePlan_eq, hby]
  congr 1
  · apply (SortBy.sort_eq_iff _ _ (nodup_knownPresent_codes hfolders _)).mpr
    exact hperm.filterMap _
  · apply (SortBy.sort_eq_iff _ _ (nodup_missingKnown_codes hcodes)).mpr
    apply (List.perm_ext_iff_of_nodup ?_ ?_).mpr
    · intro p
      rw [List.mem_filter, List.mem_filter, hactive, decide_eq_true_eq, decide_eq_true_eq, hsame]
    · exact (List.Nodup.of_map _ hcodes).sublist List.filter_sublist
    · exact (List.Nodup.of_map _ hcodes').sublist List.filter_sublist
  · apply (SortBy.sort_eq_iff _ _ ?_).mpr
    · exact hperm.filter _
    · rw [List.map_id]
      exact hfolders.sublist List.filter_sublist

/-- The plan holds each folder once, as an orphan or as the active problem of that code, and
each active problem once, as present or as missing.  It is sorted by code, and the order of the
folders and of the catalog plays no part. -/
theorem reconcile_plan_partition (hfolders : folders.Nodup) (hcodes : DistinctCodes catalog) :
    let plan := buildReconcilePlan folders catalog
    (plan.knownPresent.map CatalogProblem.code ++ plan.orphans).Perm folders ∧
      (plan.knownPresent ++ plan.missingKnown).Perm (activeCatalog catalog) ∧
      plan.knownPresent.Pairwise (fun p q => p.code < q.code) ∧
      plan.missingKnown.Pairwise (fun p q => p.code < q.code) ∧
      plan.orphans.Pairwise (· < ·) ∧
      ∀ (folders' : List String) (catalog' : List CatalogProblem), folders'.Nodup →
        DistinctCodes catalog' → (∀ folder, folder ∈ folders ↔ folder ∈ folders') →
        (∀ p, p ∈ catalog ↔ p ∈ catalog') → buildReconcilePlan folders' catalog' = plan := by
  refine ⟨folders_partition folders catalog, problems_partition hfolders hcodes, ?_, ?_, ?_, ?_⟩
  · rw [buildReconcilePlan_eq]
    exact SortBy.pairwise_lt (SortBy.insertion CatalogProblem.code)
      (nodup_knownPresent_codes hfolders _)
  · rw [buildReconcilePlan_eq]
    exact SortBy.pairwise_lt (SortBy.insertion CatalogProblem.code)
      (nodup_missingKnown_codes hcodes)
  · rw [buildReconcilePlan_eq]
    apply SortBy.pairwise_lt (SortBy.insertion id)
    rw [List.map_id]
    exact hfolders.sublist List.filter_sublist
  · intro folders' catalog' hfolders' hcodes' hsame hproblems
    exact (buildReconcilePlan_congr hfolders hfolders' hcodes hcodes' hsame hproblems).symm

end

/-! Problem 3 is no longer in the catalog, and another one has its code. -/

def listedCatalog : List CatalogProblem :=
  [⟨"7", "sums", .mirror⟩, ⟨"3", "aplusb", .deleted⟩, ⟨"4", "aplusb", .present⟩,
    ⟨"9", "paths", .present⟩]

theorem reconcile_plan_partition_listed :
    ((buildReconcilePlan ["trash", "sums", "aplusb"] listedCatalog).knownPresent ++
        (buildReconcilePlan ["trash", "sums", "aplusb"] listedCatalog).missingKnown).Perm
      (activeCatalog listedCatalog) ∧
      buildReconcilePlan ["aplusb", "sums", "trash"] listedCatalog.reverse =
        buildReconcilePlan ["trash", "sums", "aplusb"] listedCatalog := by
  obtain ⟨-, hproblems, -, -, -, hsame⟩ := @reconcile_plan_partition ["trash", "sums", "aplusb"]
    listedCatalog (by decide) (by decide +kernel)
  refine ⟨hproblems, hsame _ _ (by decide) (by decide +kernel) ?_ ?_⟩
  · intro folder
    simp only [List.mem_cons, List.not_mem_nil, or_false]
    tauto
  · intro p
    exact List.mem_reverse.symm

end ExternalStorage.Catalog
