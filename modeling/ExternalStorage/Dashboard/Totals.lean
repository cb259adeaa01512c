import ExternalStorage.Dashboard.LiveListings

/-!
# Totals

The summary of the dashboard and the usage of organizations are queried apart.  The pages of the
organizations and the active problems that nobody owns add up to the summary, as long as the
catalog stays as it is.
-/

namespace ExternalStorage.Dashboard

open ExternalStorage.Model Library.Groups Library.LivePages Library.Paging Library.Table

def unownedRows (db : Database) : List (ProblemRow × Option ProblemUsageRow) :=
  (activeRows db).filter fun r => ownerOf r = none

/-! ## An organization in the list, and by itself -/

section Table

variable {now : Timestamp} {settings : List OrganizationSettingsRow} {db : Database}

theorem nodup_ids_organizationTable :
    ((organizationTable now settings db).map OrganizationUsage.organizationId).Nodup := by
  rw [ids_organizationTable]
  exact nodup_groupKeys _

theorem eq_organizationTotals {o : OrganizationUsage}
    (h : o ∈ organizationTable now settings db) :
    o = organizationTotals now settings o.organizationId
      (groupOf ownerOf (activeRows db) o.organizationId) := by
  obtain ⟨org, -, rfl⟩ := List.mem_map.mp h
  rfl

theorem getOrganizationUsage_eq_some {orgId : String} {o : OrganizationUsage} :
    getOrganizationUsage now settings db orgId = some o ↔
      o ∈ organizationTable now settings db ∧ o.organizationId = orgId := by
  rw [getOrganizationUsage, organizationGroups_eq, List.head?_filter]
  constructor
  · intro h
    exact ⟨List.mem_of_find?_eq_some h, by simpa using List.find?_some h⟩
  · rintro ⟨ho, rfl⟩
    cases hfind : (organizationTable now settings db).find? fun o' =>
        decide (o'.organizationId = o.organizationId) with
    | none => exact absurd (decide_eq_true rfl) (List.find?_eq_none.mp hfind o ho)
    | some o' =>
        have hsame : o'.organizationId = o.organizationId := by simpa using List.find?_some hfind
        rw [List.inj_on_of_nodup_map nodup_ids_organizationTable
          (List.mem_of_find?_eq_some hfind) ho hsame]

end Table

/-! ## The pages of an unchanged catalog -/

section Pages

variable {κ : Type*} [LinearOrder κ] {collate : String → κ} {limit : Nat} {db : Database}
  {states : List DashboardState} {pages : List (ListPage OrganizationUsage String)}

theorem mem_pages
    (hread : ReadsTable collate (organizationsOf collate limit) (fun p => p)
      OrganizationUsage.organizationId (fun s => organizationTable s.now s.settings s.db) states)
    (hpages : followLive (organizationsOf collate limit) (fun p => p) states none = some pages)
    (hsame : ∀ s ∈ states, s.db = db) {o : OrganizationUsage}
    (ho : o ∈ (pages.map ListPage.items).flatten) :
    ∃ s ∈ states, o ∈ organizationTable s.now s.settings db := by
  obtain ⟨items, hitems, ho⟩ := List.mem_flatten.mp ho
  obtain ⟨i, hi, rfl⟩ := List.getElem_of_mem hitems
  have hall := List.forall₂_iff_get.mp (hread.1 pages hpages).current
  have hlt : i < states.length := by
    have hlength := hall.1
    rw [List.length_map] at hlength
    rw [hlength]
    exact hi
  refine ⟨states[i], List.getElem_mem hlt, ?_⟩
  have hmem := hall.2 i (by rw [List.length_map]; exact hlt) hi o ho
  simp only [List.get_eq_getElem, List.getElem_map] at hmem
  rwa [hsame _ (List.getElem_mem hlt)] at hmem

theorem ids_pages (hcollate : Function.Injective collate)
    (hread : ReadsTable collate (organizationsOf collate limit) (fun p => p)
      OrganizationUsage.organizationId (fun s => organizationTable s.now s.settings s.db) states)
    (hpages : followLive (organizationsOf collate limit) (fun p => p) states none = some pages)
    (hsame : ∀ s ∈ states, s.db = db) :
    ((pages.map ListPage.items).flatten.map OrganizationUsage.organizationId).Perm
      (groupKeys ownerOf (activeRows db)) := by
  have hnodup :
      ((pages.map ListPage.items).flatten.map OrganizationUsage.organizationId).Nodup := by
    refine List.pairwise_map.mpr ((hread.1 pages hpages).ascending.imp ?_)
    intro o o' hlt heq
    exact absurd hlt (by rw [heq]; exact lt_irrefl _)
  refine (List.perm_ext_iff_of_nodup hnodup (nodup_groupKeys _)).mpr fun org => ?_
  constructor
  · intro horg
    obtain ⟨o, ho, rfl⟩ := List.mem_map.mp horg
    obtain ⟨s, -, hmem⟩ := mem_pages hread hpages hsame ho
    rw [← ids_organizationTable s.now s.settings db]
    exact List.mem_map_of_mem hmem
  · intro horg
    have hall : ∀ rows ∈ states.map fun s => organizationTable s.now s.settings s.db,
        collate org ∈ rows.map fun o => collate o.organizationId := by
      intro rows hrows
      obtain ⟨s, hs, rfl⟩ := List.mem_map.mp hrows
      rw [← ids_organizationTable s.now s.settings db, ← hsame s hs] at horg
      obtain ⟨o, ho, rfl⟩ := List.mem_map.mp horg
      exact List.mem_map_of_mem ho
    obtain ⟨o, ho, hkey⟩ := List.mem_map.mp ((hread.1 pages hpages).complete _ hall)
    exact hcollate hkey ▸ List.mem_map_of_mem ho

theorem sum_pages (hcollate : Function.Injective collate)
    (hread : ReadsTable collate (organizationsOf collate limit) (fun p => p)
      OrganizationUsage.organizationId (fun s => organizationTable s.now s.settings s.db) states)
    (hpages : followLive (organizationsOf collate limit) (fun p => p) states none = some pages)
    (hsame : ∀ s ∈ states, s.db = db) (column : OrganizationUsage → Int)
    (value : ProblemRow × Option ProblemUsageRow → Int)
    (hcolumn : ∀ now settings org rows,
      column (organizationTotals now settings org rows) = (rows.map value).sum) :
    ((pages.map ListPage.items).flatten.map column).sum + ((unownedRows db).map value).sum =
      ((activeRows db).map value).sum := by
  have hvalue : (pages.map ListPage.items).flatten.map column =
      ((pages.map ListPage.items).flatten.map OrganizationUsage.organizationId).map fun org =>
        ((groupOf ownerOf (activeRows db) org).map value).sum := by
    rw [List.map_map]
    refine List.map_congr_left fun o ho => ?_
    obtain ⟨s, -, hmem⟩ := mem_pages hread hpages hsame ho
    rw [eq_organizationTotals hmem, hcolumn]
    rfl
  rw [hvalue, ((ids_pages hcollate hread hpages hsame).map _).sum_eq]
  exact sum_groups value (nodup_groupKeys _) (activeRows db) fun r hr k hk =>
    mem_groupKeys.mpr ⟨r, hr, hk⟩

/-- The pages and the problems without an owner add up to the summary; an item of the pages is what
a request for that organization answers, and an organization that is not on them has no answer. -/
theorem organization_pages_add_up (hcollate : Function.Injective collate) (hlimit : 0 < limit)
    (hsame : ∀ s ∈ states, s.db = db)
    (hpages : followLive (organizationsOf collate limit) (fun p => p) states none = some pages) :
    let items := (pages.map ListPage.items).flatten
    let summary := getDashboardSummary db
    (items.map OrganizationUsage.problemCount).sum + (unownedRows db).length =
        summary.activeProblemCount ∧
      (items.map OrganizationUsage.logicalBytes).sum +
          sumUsage ProblemUsageRow.logicalBytes (unownedRows db) = summary.logicalBytes ∧
      (items.map OrganizationUsage.allocatedBytes).sum +
          sumUsage ProblemUsageRow.allocatedBytes (unownedRows db) = summary.allocatedBytes ∧
      (items.map OrganizationUsage.archiveBytes).sum +
          sumUsage ProblemUsageRow.archiveBytes (unownedRows db) = summary.archiveBytes ∧
      (items.map OrganizationUsage.auxiliaryBytes).sum +
          sumUsage ProblemUsageRow.auxiliaryBytes (unownedRows db) = summary.auxiliaryBytes ∧
      (∀ o ∈ items, ∃ s ∈ states,
        getOrganizationUsage s.now s.settings db o.organizationId = some o) ∧
      ∀ now settings orgId, (∀ o ∈ items, o.organizationId ≠ orgId) →
        getOrganizationUsage now settings db orgId = none := by
  have hread : ReadsTable collate (organizationsOf collate limit) (fun p => p)
      OrganizationUsage.organizationId (fun s => organizationTable s.now s.settings s.db)
      states := by
    refine readsTable hcollate (lt_min hlimit (by decide)) organizationsOf_eq fun s _ => ?_
    exact nodup_ids_organizationTable
  have hsum := fun (column : OrganizationUsage → Int) (usage : ProblemUsageRow → Int) =>
    sum_pages hcollate hread hpages hsame column fun r => (r.2.map usage).getD 0
  refine ⟨?_, hsum _ _ fun _ _ _ _ => rfl, hsum _ _ fun _ _ _ _ => rfl,
    hsum _ _ fun _ _ _ _ => rfl, hsum _ _ fun _ _ _ _ => rfl, fun o ho => ?_, ?_⟩
  · have hcount := sum_pages hcollate hread hpages hsame OrganizationUsage.problemCount
      (fun _ => 1) fun now settings org rows => by simp [organizationTotals]
    change _ = ((activeRows db).length : Int)
    simpa using hcount
  · obtain ⟨s, hs, hmem⟩ := mem_pages hread hpages hsame ho
    exact ⟨s, hs, getOrganizationUsage_eq_some.mpr ⟨hmem, rfl⟩⟩
  · intro now settings orgId hnone
    rw [Option.eq_none_iff_forall_not_mem]
    intro o ho
    obtain ⟨hmem, rfl⟩ := getOrganizationUsage_eq_some.mp ho
    have horg := List.mem_map_of_mem (f := OrganizationUsage.organizationId) hmem
    rw [ids_organizationTable, ← (ids_pages hcollate hread hpages hsame).mem_iff] at horg
    obtain ⟨o', ho', hid⟩ := List.mem_map.mp horg
    exact hnone o' ho' hid

end Pages

/-! ### Two organizations, a problem without an owner and an orphan -/

def problemOf (externalId : String) (owner : Option String) (state : CatalogState) : ProblemRow :=
  ⟨externalId, externalId, owner, false, none, none, state, 0, false, false, none, 0, none, 1⟩

def bytesOf (externalId : String) (bytes : Int) : ProblemUsageRow :=
  ⟨externalId, bytes, bytes, 0, bytes, 1, .present, .none, none, 0, 0, 0, false, none⟩

def sampleCatalog : Database where
  problems := [problemOf "1" (some "b") .present, problemOf "2" (some "a") .mirror,
    problemOf "3" none .present, problemOf "4" (some "a") .orphan,
    problemOf "5" (some "b") .present]
  problemUsage := [bytesOf "1" 10, bytesOf "2" 20, bytesOf "3" 5, bytesOf "4" 7]

def sampleRequests : List DashboardState := [⟨1, [], sampleCatalog⟩, ⟨2, [], sampleCatalog⟩]

def samplePages : List (ListPage OrganizationUsage String) :=
  (followLive (organizationsOf (fun t => t) 1) (fun p => p) sampleRequests none).getD []

theorem organization_pages_add_up_sample :
    (samplePages.map ListPage.items).flatten.map OrganizationUsage.logicalBytes = [20, 10] ∧
      ((samplePages.map ListPage.items).flatten.map OrganizationUsage.logicalBytes).sum +
          sumUsage ProblemUsageRow.logicalBytes (unownedRows sampleCatalog) =
        (getDashboardSummary sampleCatalog).logicalBytes :=
  ⟨by decide, (@organization_pages_add_up String _ (fun t => t) 1 sampleCatalog sampleRequests
    samplePages (fun _ _ h => h) (by decide) (by decide) (by decide)).2.1⟩

end ExternalStorage.Dashboard
