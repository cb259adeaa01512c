import ExternalStorage.Sync.Reading
import ExternalStorage.Sync.Writes

/-!
# Sync delivers every change

A consumer pages through the changes while both programs write.  What it has received last
of a problem is the problem's row, or the row is still to come: timely writes keep it so,
in whichever order they commit.
-/

namespace ExternalStorage.Sync

open ExternalStorage.Model Library.Paging Library.Runs Library.Table

/-- The storage, the consumer's cursor and what it has received last of each problem. -/
structure Consumer where
  db : Database
  cursor : Option SyncCursor := none
  received : String → Option SyncChange := fun _ => none

inductive Action where
  /-- A write whose transaction has begun at `now` commits. -/
  | write (now : Timestamp) (w : Write)
  /-- The consumer reads a page. -/
  | page (limit : Nat)
  deriving DecidableEq, Repr

def receive (received : String → Option SyncChange) (changes : List SyncChange) :
    String → Option SyncChange :=
  changes.foldl (fun received change =>
    Function.update received change.externalId (some change)) received

section Consuming

variable {κ : Type*} [LinearOrder κ] (collate : String → κ)

/-- The schema turns a write down that would make an id or a code of `problems` double. -/
def step (c : Consumer) : Action → Option Consumer
  | .write now w =>
      (w.run now c.db).bind fun db =>
        if (db.problems.map ProblemRow.externalId).Nodup ∧ (db.problems.map ProblemRow.code).Nodup
        then some { c with db := db } else none
  | .page limit =>
      let response := getSyncChanges collate c.cursor limit c.db
      some { c with
        cursor := response.nextCursor.or c.cursor
        received := receive c.received response.changes }

/-- Each write is timely for the consumer's cursor; a page is not restricted. -/
def TimelyStep (c : Consumer) (a : Action) (_ : Consumer) : Prop :=
  match a with
  | .write now w => Timely collate c.cursor now c.db w
  | .page _ => True

instance (c d : Consumer) : (a : Action) → Decidable (TimelyStep collate c a d)
  | .write now w => inferInstanceAs (Decidable (Timely collate c.cursor now c.db w))
  | .page _ => isTrue trivial

def Delivered (c : Consumer) (r : SyncRow) : Prop :=
  c.received r.p.externalId = some (rowToSyncChange r)

structure Following (c : Consumer) : Prop where
  unique : Catalog.UniqueProblems c.db.problems
  rows : ∀ r ∈ syncRows c.db, afterCursor collate c.cursor r = true ∨ Delivered c r

end Consuming

section Delivery

variable {κ : Type*} [LinearOrder κ] {collate : String → κ} {c d : Consumer}

/-! ## Receiving a page -/

theorem receive_of_not_mem {received : String → Option SyncChange} {changes : List SyncChange}
    {externalId : String} (h : ∀ change ∈ changes, change.externalId ≠ externalId) :
    receive received changes externalId = received externalId := by
  induction changes generalizing received with
  | nil => rfl
  | cons change changes ih =>
      rw [receive, List.foldl_cons]
      refine (ih fun other hother => h other (List.mem_cons_of_mem _ hother)).trans ?_
      exact Function.update_of_ne (Ne.symm (h change List.mem_cons_self)) _ _

theorem receive_of_mem {received : String → Option SyncChange} {changes : List SyncChange}
    (hids : (changes.map SyncChange.externalId).Nodup) {change : SyncChange}
    (h : change ∈ changes) : receive received changes change.externalId = some change := by
  induction changes generalizing received with
  | nil => cases h
  | cons first changes ih =>
      rw [List.map_cons, List.nodup_cons] at hids
      rw [receive, List.foldl_cons]
      rcases List.mem_cons.mp h with rfl | hmem
      · refine (receive_of_not_mem ?_).trans (Function.update_self _ _ _)
        intro other hother hid
        exact hids.1 (hid ▸ List.mem_map_of_mem hother)
      · exact ih hids.2 hmem

theorem afterCursor_eq_behind (cursor : Option SyncCursor) (r : SyncRow) :
    afterCursor collate cursor r =
      behind (syncKey collate) (cursor.map (SyncCursor.key collate)) r := by
  cases cursor <;> rfl

theorem eq_of_externalId (hunique : Catalog.UniqueProblems c.db.problems) {r s : SyncRow}
    (hr : r ∈ syncRows c.db) (hs : s ∈ syncRows c.db) (hid : r.p.externalId = s.p.externalId) :
    r = s := by
  obtain ⟨p, hp, rfl⟩ := mem_syncRows.mp hr
  obtain ⟨q, hq, rfl⟩ := mem_syncRows.mp hs
  rw [hunique.eq_of_id hp hq hid]

theorem page_ids_nodup (collate : String → κ) (hunique : Catalog.UniqueProblems c.db.problems) (limit : Nat)
    (cursor : Option (ℤ ×ₗ κ)) :
    ((page (syncKey collate) keepMillis limit (syncRows c.db) cursor).items.map fun r =>
      r.p.externalId).Nodup := by
  have hrows : ((syncRows c.db).map fun r => r.p.externalId).Nodup := by
    have hexternal : (syncRows c.db).map (fun r => r.p.externalId) =
        c.db.problems.map ProblemRow.externalId := by
      simp [syncRows]
    rw [hexternal]
    exact hunique.ids
  have hperm : (inOrder (syncKey collate) ((syncRows c.db).filter
      (behind (syncKey collate) cursor))).Perm _ := perm_inOrder _
  have hordered := (hperm.map fun r => r.p.externalId).nodup_iff.mpr
    (hrows.sublist (List.filter_sublist.map _))
  exact hordered.sublist (((List.take_sublist _ _).trans (List.take_sublist _ _)).map _)

/-- What a page does to a row: it delivers the row, or has not reached it, or the row was
delivered before. -/
theorem page_row (hcollate : Function.Injective collate) (hfollowing : Following collate c)
    {limit : Nat} (h : step collate c (.page limit) = some d) {r : SyncRow}
    (hr : r ∈ syncRows c.db) :
    Delivered d r ∨ afterCursor collate c.cursor r = true ∧
      afterCursor collate d.cursor r = true ∧
        (getSyncChanges collate c.cursor limit c.db).hasMore = true := by
  obtain rfl := Option.some.inj h
  have hkeys := keys_nodup hfollowing.unique.ids hcollate
  obtain ⟨hchanges, hnext, hmore⟩ :=
    getSyncChanges_eq_page collate c.cursor limit c.db
  have hids := page_ids_nodup collate hfollowing.unique (min limit 500)
    (c.cursor.map (SyncCursor.key collate))
  by_cases hitem : r ∈ (page (syncKey collate) keepMillis (min limit 500) (syncRows c.db)
      (c.cursor.map (SyncCursor.key collate))).items
  · left
    unfold Delivered
    dsimp only
    rw [hchanges]
    have hchange := List.mem_map_of_mem (f := rowToSyncChange) hitem
    refine receive_of_mem ?_ hchange
    rw [List.map_map]
    exact hids
  · rcases hfollowing.rows r hr with hafter | hdelivered
    · right
      refine ⟨hafter, ?_⟩
      rw [afterCursor_eq_behind] at hafter ⊢
      dsimp only
      rw [Option.map_or, hnext]
      refine ⟨(mem_page_or_behind hkeys keepMillis_le hr hafter).resolve_left hitem, ?_⟩
      rw [hmore]
      by_contra hlast
      exact hitem (mem_page_of_last hkeys hr hafter (Bool.not_eq_true _ ▸ hlast))
    · left
      unfold Delivered at hdelivered ⊢
      dsimp only
      rw [hchanges, receive_of_not_mem, hdelivered]
      intro change hchange hid
      obtain ⟨s, hs, rfl⟩ := List.mem_map.mp hchange
      have hsame : s = r := eq_of_externalId hfollowing.unique (mem_of_mem_page hs) hr hid
      exact hitem (hsame ▸ hs)

/-! ## Steps and runs -/

theorem following_step (hcollate : Function.Injective collate) {a : Action}
    (hfollowing : Following collate c) (htimely : TimelyStep collate c a d)
    (h : step collate c a = some d) : Following collate d := by
  cases a with
  | write now w =>
      obtain ⟨db, hrun, h⟩ := Option.bind_eq_some_iff.mp h
      obtain ⟨⟨hids, hcodes⟩, h⟩ := Option.ite_none_right_eq_some.mp h
      obtain rfl := Option.some.inj h
      refine ⟨⟨hids, hcodes⟩, ?_⟩
      intro r hr
      rcases leaves_of_timely hfollowing.unique htimely hrun r hr with hold | hafter
      · exact hfollowing.rows r hold
      · exact .inl hafter
  | page limit =>
      have hsame : d.db = c.db := by
        obtain rfl := Option.some.inj h
        rfl
      refine ⟨by rw [hsame]; exact hfollowing.unique, ?_⟩
      intro r hr
      rw [hsame] at hr
      rcases page_row hcollate hfollowing h hr with hdelivered | ⟨-, hafter, -⟩
      · exact .inr hdelivered
      · exact .inl hafter

/-- However timely writes and pages are interleaved: after a page that has no more, what the
consumer has received last of each problem is the problem's row. -/
theorem sync_delivers (hunique : Catalog.UniqueProblems c.db.problems)
    (hcollate : Function.Injective collate) (hstart : c.cursor = none) (actions : List Action)
    (htimely : EveryStep (step collate) (TimelyStep collate) c actions) {quiet last : Consumer}
    (hrun : exec (step collate) c actions = some quiet) {limit : Nat}
    (hpage : step collate quiet (.page limit) = some last)
    (hlast : (getSyncChanges collate quiet.cursor limit quiet.db).hasMore = false) :
    ∀ r ∈ syncRows last.db, last.received r.p.externalId = some (rowToSyncChange r) := by
  have hinit : Following collate c := by
    refine ⟨hunique, ?_⟩
    intro r _
    rw [hstart]
    exact .inl rfl
  have hfollowing : Following collate quiet :=
    exec_invariant (I := Following collate) (C := TimelyStep collate)
      (fun c a d hc hta h => following_step hcollate hc hta h) hinit htimely hrun
  have hsame : last.db = quiet.db := by
    obtain rfl := Option.some.inj hpage
    rfl
  intro r hr
  rw [hsame] at hr
  rcases page_row hcollate hfollowing hpage hr with hdelivered | ⟨-, -, hmore⟩
  · exact hdelivered
  · rw [hlast] at hmore
    cases hmore

end Delivery

/-! A problem that has been observed with its folder, and a later one without. -/

def scannedFolder : ScanResult where
  code := "1"
  logicalBytes := 40
  allocatedBytes := 8192
  archiveBytes := 22
  auxiliaryBytes := 18
  fileCount := 2
  files := []

def observedConsumer : Consumer where
  db := { problems := [observedProblem "1" 5000, observedProblem "2" 8500]
          problemUsage := DataPlane.upsertProblemUsage 5500 "1" scannedFolder .present [] }

/-- The consumer has read the scan; the folder is found missing, and a late transaction
records an access before that is read. -/
def missingThenAccessed : List Action :=
  [.page 10, .write 9250 (.markLocalMissingByCode "1"), .write 6000 (.touchProblemAccess "1")]

theorem sync_delivers_late_access :
    ∃ quiet last, exec (step id) observedConsumer missingThenAccessed = some quiet ∧
      step id quiet (.page 10) = some last ∧
      ∀ r ∈ syncRows last.db, last.received r.p.externalId = some (rowToSyncChange r) := by
  have hrun : (exec (step id) observedConsumer missingThenAccessed).any (fun quiet =>
      !(getSyncChanges id quiet.cursor 10 quiet.db).hasMore) = true := by decide +kernel
  obtain ⟨quiet, hquiet, hlast⟩ := (Option.any_eq_true _ _).mp hrun
  rw [Bool.not_eq_true'] at hlast
  refine ⟨quiet, _, hquiet, rfl, ?_⟩
  exact sync_delivers ⟨by decide, by decide⟩ Function.injective_id rfl missingThenAccessed
    (by decide +kernel) hquiet rfl hlast

/-- The watcher marks the usage stale, and does not observe it: the consumer never hears. -/
theorem stale_mark_not_delivered :
    ∃ quiet ∈ exec (step id) observedConsumer [.page 10, .write 9250 (.markStale "1")],
      (getSyncChanges id quiet.cursor 10 quiet.db).hasMore = false ∧
        ∃ last ∈ step id quiet (.page 10), ∃ r ∈ syncRows last.db,
          last.received r.p.externalId ≠ some (rowToSyncChange r) := by
  decide +kernel

end ExternalStorage.Sync
