import ExternalStorage.Library.Paging
import ExternalStorage.Model.Sync
import Mathlib.Data.String.Basic

/-!
# A reading of the sync changes comes to an end

The cursor passes through a `Date` and loses the microseconds of its row, while the next
page compares microseconds.  The reading is complete exactly when the rows that cursors
are made from have none.
-/

namespace ExternalStorage.Sync

open ExternalStorage.Model Library.Paging

variable {κ : Type*} [LinearOrder κ] {collate : String → κ}

/-- The consumer's loop: pages while there is more, with the last cursor. -/
def readChanges (collate : String → κ) (limit : Nat) (db : Database) :
    Nat → Option SyncCursor → Option (List SyncChange × Option SyncCursor)
  | 0, _ => none
  | fuel + 1, cursor =>
      let response := getSyncChanges collate cursor limit db
      if response.hasMore then
        (readChanges collate limit db fuel response.nextCursor).map fun rest =>
          (response.changes ++ rest.1, rest.2)
      else
        some (response.changes, response.nextCursor)

/-- The rows in the order `(updated_at, external_id)`. -/
def syncOrder (collate : String → κ) (db : Database) : List SyncRow :=
  inOrder (syncKey collate) (syncRows db)

/-- The consumer gets every row once and in order, and then nothing more. -/
def ReadsAll (collate : String → κ) (limit : Nat) (db : Database) : Prop :=
  ∃ fuel last, readChanges collate limit db fuel none =
      some ((syncOrder collate db).map rowToSyncChange, last) ∧
    (getSyncChanges collate last limit db).changes = []

/-- Each row that ends a page has been updated at a whole millisecond. -/
def WholeMillisAtPageEnds (collate : String → κ) (limit : Nat) (db : Database) : Prop :=
  ∀ i, ∀ h : i < (syncOrder collate db).length,
    min limit 500 ∣ i + 1 ∨ i + 1 = (syncOrder collate db).length →
      (syncOrder collate db)[i].updatedAt % 1000 = 0

instance (collate : String → κ) (limit : Nat) (db : Database) :
    Decidable (WholeMillisAtPageEnds collate limit db) :=
  inferInstanceAs (Decidable (∀ i, ∀ h : i < (syncOrder collate db).length,
    min limit 500 ∣ i + 1 ∨ i + 1 = (syncOrder collate db).length →
      (syncOrder collate db)[i].updatedAt % 1000 = 0))

/-! ## Pages -/

def keepMillis (k : ℤ ×ₗ κ) : ℤ ×ₗ κ := toLex (toRfc3339 (ofLex k).1, (ofLex k).2)

theorem toRfc3339_eq_self {t : ℤ} : toRfc3339 t = t ↔ t % 1000 = 0 := by
  show t / 1000 * 1000 = t ↔ t % 1000 = 0
  omega

theorem keepMillis_le (k : ℤ ×ₗ κ) : keepMillis k ≤ k := by
  rw [Prod.Lex.le_iff]
  rcases lt_or_eq_of_le (toRfc3339_le (ofLex k).1) with hlt | heq
  · exact .inl hlt
  · exact .inr ⟨heq, le_refl _⟩

omit [LinearOrder κ] in
theorem keepMillis_syncKey (r : SyncRow) :
    keepMillis (syncKey collate r) = syncKey collate r ↔ r.updatedAt % 1000 = 0 := by
  rw [← toRfc3339_eq_self]
  constructor
  · exact fun h => congrArg (fun k => (ofLex k).1) h
  · intro h
    unfold keepMillis syncKey
    rw [ofLex_toLex]
    dsimp only
    rw [h]

theorem getSyncChanges_eq_page (collate : String → κ) (cursor : Option SyncCursor) (limit : Nat) (db : Database) :
    let p := page (syncKey collate) keepMillis (min limit 500) (syncRows db)
      (cursor.map (SyncCursor.key collate))
    let response := getSyncChanges collate cursor limit db
    response.changes = p.items.map rowToSyncChange ∧
      response.nextCursor.map (SyncCursor.key collate) = p.next ∧ response.hasMore = p.more := by
  have hbehind : afterCursor collate cursor =
      behind (syncKey collate) (cursor.map (SyncCursor.key collate)) := by
    funext r
    cases cursor <;> rfl
  dsimp only [getSyncChanges, page]
  rw [hbehind, Option.map_map]
  exact ⟨rfl, rfl, rfl⟩

theorem readChanges_eq_follow (collate : String → κ) (limit : Nat) (db : Database) (fuel : Nat)
    (cursor : Option SyncCursor) :
    (readChanges collate limit db fuel cursor).map (fun read =>
        (read.1, read.2.map (SyncCursor.key collate))) =
      (follow (syncKey collate) keepMillis (min limit 500) (syncRows db) fuel
        (cursor.map (SyncCursor.key collate))).map fun read =>
          (read.1.map rowToSyncChange, read.2) := by
  induction fuel generalizing cursor with
  | zero => rfl
  | succ fuel ih =>
      obtain ⟨hchanges, hnext, hmore⟩ := getSyncChanges_eq_page collate cursor limit db
      have hrest := ih (getSyncChanges collate cursor limit db).nextCursor
      rw [hnext] at hrest
      simp only [readChanges, follow, hmore]
      split
      · rw [Option.map_map, Option.map_map]
        cases hread : readChanges collate limit db fuel
            (getSyncChanges collate cursor limit db).nextCursor with
        | none =>
            rw [hread, Option.map_none, eq_comm, Option.map_eq_none_iff] at hrest
            rw [hrest]
            rfl
        | some read =>
            rw [hread, Option.map_some, eq_comm, Option.map_eq_some_iff] at hrest
            obtain ⟨follows, hfollow, heq⟩ := hrest
            obtain ⟨hitems, hlast⟩ := Prod.mk.inj heq
            rw [hfollow]
            simp only [Option.map_some, Function.comp_apply, List.map_append, hchanges, hitems,
              hlast]
      · rw [Option.map_some, Option.map_some, hchanges, hnext]

/-! ## The whole reading -/

omit [LinearOrder κ] in
theorem keys_nodup {db : Database} (hids : (db.problems.map ProblemRow.externalId).Nodup)
    (hcollate : Function.Injective collate) :
    ((syncRows db).map (syncKey collate)).Nodup := by
  have hexternal : (syncRows db).map (fun r => collate r.p.externalId) =
      (db.problems.map ProblemRow.externalId).map collate := by
    simp [syncRows]
  refine List.Nodup.of_map (fun k => (ofLex k).2) ?_
  rw [List.map_map]
  change ((syncRows db).map fun r => collate r.p.externalId).Nodup
  rw [hexternal]
  exact hids.map hcollate

theorem rows_eq_of_changes {db : Database} (hids : (db.problems.map ProblemRow.externalId).Nodup)
    {rows rows' : List SyncRow} (hrows : ∀ r ∈ rows, r ∈ syncRows db)
    (hrows' : ∀ r ∈ rows', r ∈ syncRows db)
    (h : rows.map rowToSyncChange = rows'.map rowToSyncChange) : rows = rows' := by
  have hnodup : ((syncRows db).map fun r => r.p.externalId).Nodup := by
    have hexternal : (syncRows db).map (fun r => r.p.externalId) =
        db.problems.map ProblemRow.externalId := by
      simp [syncRows]
    rw [hexternal]
    exact hids
  induction rows generalizing rows' with
  | nil => exact (List.map_eq_nil_iff.mp h.symm).symm
  | cons r rows ih =>
      cases rows' with
      | nil => cases h
      | cons r' rows' =>
          rw [List.map_cons, List.map_cons, List.cons.injEq] at h
          have hid : r.p.externalId = r'.p.externalId := congrArg SyncChange.externalId h.1
          have hr : r = r' := List.inj_on_of_nodup_map hnodup (hrows r List.mem_cons_self)
            (hrows' r' List.mem_cons_self) hid
          rw [hr, ih (fun s hs => hrows s (List.mem_cons_of_mem _ hs))
            (fun s hs => hrows' s (List.mem_cons_of_mem _ hs)) h.2]

/-- A reading is complete exactly when every row that ends a page has been updated at a
whole millisecond. -/
theorem sync_reads_all {limit : Nat} {db : Database}
    (hids : (db.problems.map ProblemRow.externalId).Nodup)
    (hcollate : Function.Injective collate) (hlimit : 1 ≤ limit) :
    ReadsAll collate limit db ↔ WholeMillisAtPageEnds collate limit db := by
  have hlimit' : 0 < min limit 500 := by omega
  have hkeys := keys_nodup hids hcollate
  have hmillis : WholeMillisAtPageEnds collate limit db ↔
      Exact (syncKey collate) keepMillis (min limit 500) (syncRows db) := by
    rw [exact_iff_getElem]
    simp only [keepMillis_syncKey]
    exact Iff.rfl
  rw [hmillis, ← follow_exact_iff hkeys hlimit' keepMillis_le]
  have hpage : ∀ last : Option SyncCursor, (getSyncChanges collate last limit db).changes = [] ↔
      (page (syncKey collate) keepMillis (min limit 500) (syncRows db)
        (last.map (SyncCursor.key collate))).items = [] := by
    intro last
    rw [(getSyncChanges_eq_page collate last limit db).1, List.map_eq_nil_iff]
  have horder : ∀ r ∈ syncOrder collate db, r ∈ syncRows db :=
    fun r hr => (perm_inOrder _).mem_iff.mp hr
  constructor
  · rintro ⟨fuel, last, hread, hend⟩
    have hfollow := readChanges_eq_follow collate limit db fuel none
    rw [hread, Option.map_some, eq_comm, Option.map_eq_some_iff] at hfollow
    obtain ⟨⟨items, last'⟩, hfollow, heq⟩ := hfollow
    obtain ⟨hitems, rfl⟩ := Prod.mk.inj heq
    rw [rows_eq_of_changes hids (fun r hr => mem_of_mem_follow hfollow hr) horder hitems]
      at hfollow
    exact ⟨fuel, _, hfollow, (hpage last).mp hend⟩
  · rintro ⟨fuel, last, hfollow, hend⟩
    have hread := readChanges_eq_follow collate limit db fuel none
    rw [Option.map_none, hfollow, Option.map_some, Option.map_eq_some_iff] at hread
    obtain ⟨⟨changes, last'⟩, hread, heq⟩ := hread
    obtain ⟨hchanges, hlast⟩ := Prod.mk.inj heq
    dsimp only at hchanges hlast
    rw [hchanges] at hread
    refine ⟨fuel, last', hread, (hpage last').mpr ?_⟩
    rw [hlast]
    exact hend

/-! Problems without usage; the collation is the order of the code points. -/

def observedProblem (externalId : String) (observedAt : Timestamp) : ProblemRow where
  externalId := externalId
  code := externalId
  ownerOrganization := none
  isManuallyManaged := false
  mirrorOf := none
  mirrorRoot := none
  catalogState := .present
  observedAt := observedAt
  stale := false
  dirty := false
  dirtyGeneration := none
  dirtyVersion := 0
  quotaBytes := none
  schemaVersion := 1

/-- Three problems of one moment, of which the second ends a page. -/
def observedTogether (observedAt : Timestamp) : Database :=
  { problems := [observedProblem "3" observedAt, observedProblem "1" observedAt,
      observedProblem "2" observedAt] }

theorem sync_reads_all_whole_millis : ReadsAll id 2 (observedTogether 5000) :=
  (sync_reads_all (by decide) Function.injective_id (by decide)).mpr (by decide +kernel)

/-- Half a millisecond is lost: the page after problem 2 starts over, without end. -/
theorem sync_starts_over :
    ((observedTogether 5500).problems.map ProblemRow.externalId).Nodup ∧
      ∀ fuel, readChanges id 2 (observedTogether 5500) fuel none = none := by
  have hpage : ∀ cursor ∈ [none, some ⟨5000, "2"⟩],
      (getSyncChanges id cursor 2 (observedTogether 5500)).hasMore = true ∧
        (getSyncChanges id cursor 2 (observedTogether 5500)).nextCursor = some ⟨5000, "2"⟩ := by
    decide +kernel
  have hloop : ∀ fuel, ∀ cursor ∈ [none, some ⟨5000, "2"⟩],
      readChanges id 2 (observedTogether 5500) fuel cursor = none := by
    intro fuel
    induction fuel with
    | zero =>
        intro cursor _
        rfl
    | succ fuel ih =>
        intro cursor hcursor
        obtain ⟨hmore, hnext⟩ := hpage cursor hcursor
        unfold readChanges
        dsimp only
        rw [hmore, if_pos rfl, hnext, ih _ (by simp)]
        rfl
  exact ⟨by decide, fun fuel => hloop fuel none (by simp)⟩

end ExternalStorage.Sync
