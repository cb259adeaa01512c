import ExternalStorage.Library.LivePages
import ExternalStorage.Model.UsageLists
import Mathlib.Data.String.Basic

/-!
# Listings that are read while others write

The cursor of these lists is a unique text, so a reader needs no snapshot of the database.  The
files of a problem are those of the snapshot that is READY at each request: the response names it,
and only a reader who has seen one name throughout has read one snapshot.
-/

namespace ExternalStorage.Dashboard

open ExternalStorage.Model Library.Groups Library.LivePages Library.Paging Library.Table

variable {σ π ρ : Type}

/-! ## Statements -/

/-- A client that follows `next_cursor`; each request finds the next state.  `none` unless the
list comes to its end with the last of them. -/
def followLive (list : σ → Option String → π) (view : π → ListPage ρ String) :
    List σ → Option String → Option (List π)
  | [], _ => none
  | s :: later, cursor =>
      let p := list s cursor
      if (view p).hasMore then
        (view p).nextCursor.bind fun c => (followLive list view later (some c)).map (p :: ·)
      else if later.isEmpty then some [p]
      else none

/-- What the queries of the dashboard read. -/
structure DashboardState where
  now : Timestamp
  settings : List OrganizationSettingsRow
  db : Database

/-- The unique keys that the lists are ordered by. -/
structure DashboardState.Keys (s : DashboardState) : Prop where
  objects : ∀ id, ((objectsOf s.db id).map SnapshotObjectRow.relPath).Nodup
  usage : (s.db.problemUsage.map ProblemUsageRow.problemId).Nodup
  codes : (s.db.problems.map ProblemRow.code).Nodup

def readyObjects (externalId : String) (db : Database) : List SnapshotObjectRow :=
  match latestReady externalId db.snapshots with
  | none => []
  | some snap => objectsOf db snap.id

/-- A client that follows the cursors of a list reads its table while others write, and comes to
the end after as many requests as there are texts, and one more. -/
def ReadsTable {κ : Type*} [LinearOrder κ] (collate : String → κ)
    (list : DashboardState → Option String → π) (view : π → ListPage ρ String) (text : ρ → String)
    (table : DashboardState → List ρ) (states : List DashboardState) : Prop :=
  (∀ pages, followLive list view states none = some pages →
    ReadsLive (fun r => collate (text r)) (states.map table)
      (pages.map fun p => (view p).items)) ∧
  ∀ texts : List String, (∀ s ∈ states, ∀ r ∈ table s, text r ∈ texts) →
    texts.length < states.length →
      ∃ n, (followLive list view (states.take n) none).isSome = true

/-! ## Keyset lists -/

section Keyset

variable {κ : Type*} [LinearOrder κ] {collate : String → κ} {list : σ → Option String → π}
  {view : π → ListPage ρ String} {text : ρ → String} {limit : Nat} {table : σ → List ρ}

theorem filter_behind_collate (rows : List ρ) (cursor : Option String) :
    rows.filter (behind (fun r => collate (text r)) (cursor.map collate)) =
      rows.filter fun r => cursor.all fun c => collate c < collate (text r) := by
  cases cursor with
  | none => rfl
  | some c => rfl

theorem page_eq_listByText (limit : Nat) (rows : List ρ) (cursor : Option String) :
    let p := page (fun r => collate (text r)) id limit rows (cursor.map collate)
    let q := listByText collate text limit rows cursor
    p.items = q.items ∧ p.more = q.hasMore ∧
      (q.hasMore = true → p.next = q.nextCursor.map collate) := by
  simp only [page, filter_behind_collate, listByText, listPage]
  refine ⟨trivial, trivial, fun hmore => ?_⟩
  rw [if_pos hmore, Option.map_map]
  rfl

/-- The requests of a client are the pages of a reader of the tables. -/
theorem map_followLive (hlimit : 0 < limit)
    (hlist : ∀ s cursor, view (list s cursor) = listByText collate text limit (table s) cursor)
    {states : List σ} (hkeys : ∀ s ∈ states, ((table s).map fun r => collate (text r)).Nodup)
    (cursor : Option String) :
    (followLive list view states cursor).map (fun pages => pages.map fun p => (view p).items) =
      readLive (fun r => collate (text r)) limit (states.map table) (cursor.map collate) := by
  induction states generalizing cursor with
  | nil => rfl
  | cons s later ih =>
      obtain ⟨hhere, hlater⟩ := List.forall_mem_cons.mp hkeys
      obtain ⟨hitems, hmore, hnext⟩ :=
        @page_eq_listByText _ _ _ collate text limit (table s) cursor
      have hcursor := fun hgo => next_of_more hlimit hhere
        (show (page (fun r => collate (text r)) id limit (table s) (cursor.map collate)).more = true
          from hgo)
      rw [hmore] at hcursor
      rw [← hlist s cursor] at hitems hmore hnext hcursor
      rw [List.map_cons, followLive, readLive]
      simp only [hitems, hmore]
      by_cases hgo : (view (list s cursor)).hasMore = true
      · obtain ⟨r, -, hr⟩ := hcursor hgo
        rw [if_pos hgo, if_pos hgo, hnext hgo]
        rw [hnext hgo] at hr
        obtain ⟨c, hc, -⟩ := Option.map_eq_some_iff.mp hr
        rw [hc, Option.bind_some, ← ih hlater, Option.map_map, Option.map_map]
        rfl
      · rw [if_neg hgo, if_neg hgo, List.isEmpty_map]
        split <;> rfl

theorem pages_of_followLive {states : List σ} {cursor : Option String} {pages : List π}
    (h : followLive list view states cursor = some pages) :
    List.Forall₂ (fun s p => ∃ cursor, p = list s cursor) states pages := by
  induction states generalizing cursor pages with
  | nil => cases h
  | cons s later ih =>
      unfold followLive at h
      dsimp only at h
      split at h
      · obtain ⟨c, -, h⟩ := Option.bind_eq_some_iff.mp h
        obtain ⟨pages', hfollow, rfl⟩ := Option.map_eq_some_iff.mp h
        exact .cons ⟨cursor, rfl⟩ (ih hfollow)
      · split at h
        · rename_i hempty
          cases h
          rw [List.isEmpty_iff.mp hempty]
          exact .cons ⟨cursor, rfl⟩ .nil
        · cases h

omit [LinearOrder κ] in
theorem nodup_collate (hcollate : Function.Injective collate) {rows : List ρ}
    (h : (rows.map text).Nodup) : (rows.map fun r => collate (text r)).Nodup := by
  have hmap := h.map hcollate
  rwa [List.map_map] at hmap

theorem readsTable {κ : Type*} [LinearOrder κ] {collate : String → κ}
    (hcollate : Function.Injective collate) {limit : Nat} (hlimit : 0 < limit)
    {list : DashboardState → Option String → π} {view : π → ListPage ρ String} {text : ρ → String}
    {table : DashboardState → List ρ}
    (hlist : ∀ s cursor, view (list s cursor) = listByText collate text limit (table s) cursor)
    {states : List DashboardState} (hkeys : ∀ s ∈ states, ((table s).map text).Nodup) :
    ReadsTable collate list view text table states := by
  have hcollated : ∀ s ∈ states, ((table s).map fun r => collate (text r)).Nodup :=
    fun s hs => nodup_collate hcollate (hkeys s hs)
  have htables : ∀ rows ∈ states.map table, (rows.map fun r => collate (text r)).Nodup := by
    intro rows hrows
    obtain ⟨s, hs, rfl⟩ := List.mem_map.mp hrows
    exact hcollated s hs
  refine ⟨fun pages h => readsLive hlimit htables ?_, fun texts htexts hlength => ?_⟩
  · exact (map_followLive hlimit hlist hcollated none).symm.trans (congrArg (Option.map _) h)
  · have hall : ∀ rows ∈ states.map table, ∀ r ∈ rows, collate (text r) ∈ texts.map collate := by
      intro rows hrows r hr
      obtain ⟨s, hs, rfl⟩ := List.mem_map.mp hrows
      exact List.mem_map_of_mem (htexts s hs r hr)
    have hfew : ((texts.map collate).filter fun k => (none : Option κ).all fun c => c < k).length <
        (states.map table).length := by
      rw [List.length_map]
      refine lt_of_le_of_lt (List.length_filter_le _ _) ?_
      rwa [List.length_map]
    obtain ⟨n, pages, hread⟩ := exists_readLive hlimit htables hall hfew
    refine ⟨n, ?_⟩
    rw [← List.map_take] at hread
    have hmap := (map_followLive hlimit hlist
      (fun s hs => hcollated s (List.mem_of_mem_take hs)) none).trans hread
    obtain ⟨found, hfound, -⟩ := Option.map_eq_some_iff.mp hmap
    exact Option.isSome_of_mem hfound

end Keyset

/-! ## The tables of the lists -/

theorem nodup_readyObjects {s : DashboardState} (h : s.Keys) (externalId : String) :
    ((readyObjects externalId s.db).map SnapshotObjectRow.relPath).Nodup := by
  unfold readyObjects
  split
  · exact List.nodup_nil
  · exact h.objects _

theorem nodup_orphansOf {s : DashboardState} (h : s.Keys) :
    ((orphansOf s.db).map Orphan.code).Nodup := by
  have hcodes : ∀ problems : List ProblemRow, (problems.map ProblemRow.code).Nodup →
      ((problems.flatMap fun p => (s.db.problemUsage.filter fun u =>
        u.problemId = p.externalId).map fun u => (⟨p.code, u.logicalBytes, u.allocatedBytes,
          u.fileCount, u.observedAt⟩ : Orphan)).map Orphan.code).Nodup := by
    intro problems
    induction problems with
    | nil => exact fun _ => List.nodup_nil
    | cons p problems ih =>
        intro hnodup
        obtain ⟨hnew, hrest⟩ := List.nodup_cons.mp hnodup
        have hfirst : ((s.db.problemUsage.filter fun u =>
            u.problemId = p.externalId).map fun _ => p.code).Nodup := by
          have hcount := countP_key_le_one h.usage p.externalId fun _ => true
          simp only [Bool.and_true] at hcount
          rw [List.countP_eq_length_filter] at hcount
          rw [List.map_const']
          exact List.nodup_replicate.mpr hcount
        rw [List.flatMap_cons, List.map_append, List.nodup_append]
        refine ⟨?_, ih hrest, ?_⟩
        · rw [List.map_map]
          exact hfirst
        · intro code hcode code' hcode'
          rintro rfl
          rw [List.map_map] at hcode
          obtain ⟨u, -, rfl⟩ := List.mem_map.mp hcode
          obtain ⟨o, ho, hsame⟩ := List.mem_map.mp hcode'
          obtain ⟨q, hq, ho⟩ := List.mem_flatMap.mp ho
          obtain ⟨u', -, rfl⟩ := List.mem_map.mp ho
          have hcode : q.code = p.code := hsame
          exact hnew (hcode ▸ List.mem_map_of_mem hq)
  exact hcodes _ (h.codes.sublist (List.filter_sublist.map _))

/-! ## Organizations -/

def ownerOf (r : ProblemRow × Option ProblemUsageRow) : Option String := r.1.ownerOrganization

def activeRows (db : Database) : List (ProblemRow × Option ProblemUsageRow) :=
  (problemsWithUsage db).filter fun r => isActiveProblem r.1

def organizationTable (now : Timestamp) (settings : List OrganizationSettingsRow) (db : Database) :
    List OrganizationUsage :=
  groupBy ownerOf (organizationTotals now settings) (activeRows db)

section Groups

variable (now : Timestamp) (settings : List OrganizationSettingsRow) (db : Database)

theorem ids_organizationTable :
    (organizationTable now settings db).map OrganizationUsage.organizationId =
      groupKeys ownerOf (activeRows db) := by
  rw [organizationTable, groupBy, List.map_map]
  exact List.map_id _

/-- A condition on the owner selects groups: it takes no problem out of one. -/
theorem organizationGroups_eq (wanted : String → Bool) :
    organizationGroups now settings db wanted =
      (organizationTable now settings db).filter fun o => wanted o.organizationId := by
  have hrows : (problemsWithUsage db).filter (fun r =>
      isActiveProblem r.1 && r.1.ownerOrganization.any wanted) =
        (activeRows db).filter fun r => (ownerOf r).any wanted := by
    rw [activeRows, List.filter_filter]
    exact List.filter_congr fun r _ => Bool.and_comm _ _
  rw [organizationGroups, hrows]
  refine (groupBy_filter (organizationTotals now settings) wanted (activeRows db)).trans ?_
  rw [organizationTable, groupBy, List.filter_map]
  rfl

end Groups

/-! ## The lists are read while others write -/

section Listings

variable {κ : Type*} [LinearOrder κ] (collate : String → κ) (limit : Nat)

def filesOf (externalId : String) (s : DashboardState) (cursor : Option String) :
    ProblemFilesResponse :=
  listProblemFiles collate externalId limit s.db cursor

def usageOf (s : DashboardState) (cursor : Option String) : ListPage ProblemUsageRow String :=
  listProblemUsage collate limit s.db cursor

def orphansListed (s : DashboardState) (cursor : Option String) : ListPage Orphan String :=
  listOrphans collate limit s.db cursor

def organizationsOf (s : DashboardState) (cursor : Option String) :
    ListPage OrganizationUsage String :=
  listOrganizationUsage collate s.now s.settings limit s.db cursor

variable {collate limit}

theorem usageOf_eq (s : DashboardState) (cursor : Option String) :
    usageOf collate limit s cursor =
      listByText collate ProblemUsageRow.problemId (min limit 200) s.db.problemUsage cursor := rfl

theorem orphansListed_eq (s : DashboardState) (cursor : Option String) :
    orphansListed collate limit s cursor =
      listByText collate Orphan.code (min limit 200) (orphansOf s.db) cursor := rfl

theorem page_filesOf (externalId : String) (s : DashboardState) (cursor : Option String) :
    (filesOf collate limit externalId s cursor).page =
      listByText collate SnapshotObjectRow.relPath (min limit 500) (readyObjects externalId s.db)
        cursor := by
  unfold filesOf listProblemFiles readyObjects
  dsimp only
  cases latestReady externalId s.db.snapshots with
  | none =>
      unfold listByText listPage
      simp [inOrder]
  | some snap => rfl

theorem readyObjects_of_snapshotId {externalId : String} {s : DashboardState}
    {cursor : Option String} {id : Uuid}
    (h : (filesOf collate limit externalId s cursor).snapshotId = some id) :
    readyObjects externalId s.db = objectsOf s.db id := by
  unfold filesOf listProblemFiles at h
  unfold readyObjects
  dsimp only at h
  cases hready : latestReady externalId s.db.snapshots with
  | none => rw [hready] at h; cases h
  | some snap =>
      rw [hready] at h
      cases h
      rfl

theorem organizationsOf_eq (s : DashboardState) (cursor : Option String) :
    organizationsOf collate limit s cursor =
      listByText collate OrganizationUsage.organizationId (min limit 200)
        (organizationTable s.now s.settings s.db) cursor := by
  unfold organizationsOf listOrganizationUsage listByText
  rw [organizationGroups_eq]

theorem flatten_filesOf (hcollate : Function.Injective collate) {externalId : String}
    {states : List DashboardState} {pages : List ProblemFilesResponse}
    (hread : ReadsTable collate (filesOf collate limit externalId) ProblemFilesResponse.page
      SnapshotObjectRow.relPath (fun s => readyObjects externalId s.db) states)
    (hpages : followLive (filesOf collate limit externalId) ProblemFilesResponse.page states none =
      some pages) {id : Uuid} {objects : List SnapshotObjectRow}
    (hpaths : (objects.map SnapshotObjectRow.relPath).Nodup)
    (hobjects : ∀ s ∈ states, ∀ o, o ∈ objectsOf s.db id ↔ o ∈ objects)
    (hid : ∀ p ∈ pages, p.snapshotId = some id) :
    (pages.map fun p => p.page.items).flatten = inOrder (fun o => collate o.relPath) objects := by
  refine (hread.1 pages hpages).unchanged (nodup_collate hcollate hpaths) ?_
  intro rows hrows o
  obtain ⟨s, hs, rfl⟩ := List.mem_map.mp hrows
  obtain ⟨i, hi, rfl⟩ := List.getElem_of_mem hs
  have hall := List.forall₂_iff_get.mp (pages_of_followLive hpages)
  have hlt : i < pages.length := hall.1 ▸ hi
  obtain ⟨cursor, hpage⟩ := hall.2 i hi hlt
  have hnamed := hid _ (List.getElem_mem hlt)
  simp only [List.get_eq_getElem] at hpage
  rw [hpage] at hnamed
  rw [readyObjects_of_snapshotId hnamed]
  exact hobjects _ hs o

/-- The lists are read to their end while others write: in order, nothing twice, and nothing that
stays is missed.  A client whose pages name one snapshot has the files of that snapshot. -/
theorem listings_read_live (hcollate : Function.Injective collate) (hlimit : 0 < limit)
    {states : List DashboardState} (hkeys : ∀ s ∈ states, s.Keys) :
    ReadsTable collate (usageOf collate limit) (fun p => p) ProblemUsageRow.problemId
        (fun s => s.db.problemUsage) states ∧
      ReadsTable collate (orphansListed collate limit) (fun p => p) Orphan.code
        (fun s => orphansOf s.db) states ∧
      ReadsTable collate (organizationsOf collate limit) (fun p => p)
        OrganizationUsage.organizationId (fun s => organizationTable s.now s.settings s.db)
        states ∧
      ∀ externalId,
        ReadsTable collate (filesOf collate limit externalId) ProblemFilesResponse.page
          SnapshotObjectRow.relPath (fun s => readyObjects externalId s.db) states ∧
        ∀ pages id objects,
          followLive (filesOf collate limit externalId) ProblemFilesResponse.page states none =
              some pages →
            (∀ p ∈ pages, p.snapshotId = some id) →
            (objects.map SnapshotObjectRow.relPath).Nodup →
            (∀ s ∈ states, ∀ o, o ∈ objectsOf s.db id ↔ o ∈ objects) →
              (pages.map fun p => p.page.items).flatten =
                inOrder (fun o => collate o.relPath) objects := by
  have hshort : ∀ bound, 0 < bound → 0 < min limit bound := fun _ => lt_min hlimit
  refine ⟨?_, ?_, ?_, fun externalId => ?_⟩
  · refine readsTable hcollate (hshort 200 (by decide)) ?_ fun s hs => (hkeys s hs).usage
    exact usageOf_eq
  · refine readsTable hcollate (hshort 200 (by decide)) ?_ fun s hs => nodup_orphansOf (hkeys s hs)
    exact orphansListed_eq
  · refine readsTable hcollate (hshort 200 (by decide)) organizationsOf_eq fun s _ => ?_
    rw [ids_organizationTable]
    exact nodup_groupKeys _
  · have hfiles : ReadsTable collate (filesOf collate limit externalId)
        ProblemFilesResponse.page SnapshotObjectRow.relPath
        (fun s => readyObjects externalId s.db) states :=
      readsTable hcollate (hshort 500 (by decide)) (page_filesOf externalId)
        fun s hs => nodup_readyObjects (hkeys s hs) externalId
    refine ⟨hfiles, fun pages id objects hpages hid hpaths hobjects => ?_⟩
    exact flatten_filesOf hcollate hfiles hpages hpaths hobjects hid

end Listings

/-! ### A file that appears between two pages -/

def sampleObject (path : String) : SnapshotObjectRow :=
  ⟨1, "", path, 1, "", true, true⟩

def sampleReady : SnapshotRow :=
  ⟨1, "p1", 1, .ready, 2, 2, none, none, none, 0, some 0, none⟩

def beforePage : DashboardState :=
  ⟨0, [], { problems := [presentRow "p1" "sums"]
            snapshots := [sampleReady]
            snapshotObjects := [sampleObject "a", sampleObject "c"] }⟩

def afterPage : DashboardState :=
  ⟨1, [], { problems := [presentRow "p1" "sums"]
            snapshots := [sampleReady]
            snapshotObjects := [sampleObject "a", sampleObject "b", sampleObject "c"] }⟩

theorem keys_samples : ∀ s ∈ [beforePage, afterPage], s.Keys := by
  intro s hs
  rw [List.mem_pair] at hs
  rcases hs with rfl | rfl
  all_goals
    refine ⟨fun id => ?_, List.nodup_nil, List.nodup_singleton _⟩
    exact List.Nodup.sublist (List.filter_sublist.map _) (by decide)

theorem listings_read_live_samples :
    ReadsTable (fun t => t) (filesOf (fun t => t) 1 "p1") ProblemFilesResponse.page
        SnapshotObjectRow.relPath (fun s => readyObjects "p1" s.db) [beforePage, afterPage] ∧
      (followLive (filesOf (fun t => t) 1 "p1") ProblemFilesResponse.page
        [beforePage, afterPage, afterPage] none).map
          (fun pages => pages.map fun p => p.page.items.map SnapshotObjectRow.relPath) =
        some [["a"], ["b"], ["c"]] := by
  refine ⟨?_, by decide⟩
  exact ((@listings_read_live String _ (fun t => t) 1 (fun _ _ h => h) (by decide) _
    keys_samples).2.2.2 "p1").1

end ExternalStorage.Dashboard
