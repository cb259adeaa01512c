import ExternalStorage.Library.Cursors
import ExternalStorage.Model.Sync
import Mathlib.Data.Sum.Order

/-!
# Lists of the dashboard

`listJobs`, `listSnapshots`, `listAuditEvents` and `listProblems`.  Each selects one row more
than its page takes, and makes its cursor from the last row of the page.  `collate` is the
collation of the database, `ilike` its operator `ILIKE`, `dateText` is `String` of a `Date`
and `castTimestamp` what the database makes of a text that it compares with a timestamp.
-/

namespace ExternalStorage.Model

open Library.Paging

/-- A response; no page has more than 200 items. -/
structure ListPage (ρ γ : Type) where
  items : List ρ
  nextCursor : Option γ
  hasMore : Bool
  deriving DecidableEq, Repr

def listPage {ρ γ : Type} (limit : Nat) (cursorOf : ρ → γ) (rows : List ρ) : ListPage ρ γ :=
  let items := rows.take limit
  let hasMore : Bool := limit < rows.length
  ⟨items, if hasMore then items.getLast?.map cursorOf else none, hasMore⟩

/-- A client that follows `next_cursor` until `has_more` is false; `none` when the fuel runs
out, or a request fails. -/
def followList {ρ γ : Type} (list : Option γ → Option (ListPage ρ γ)) :
    Nat → Option γ → Option (List ρ)
  | 0, _ => none
  | fuel + 1, cursor =>
      match list cursor with
      | none => none
      | some page =>
          if page.hasMore then
            match page.nextCursor with
            | none => none
            | some c => (followList list fuel (some c)).map (page.items ++ ·)
          else
            some page.items

section Follow

open Library.Cursors

variable {ρ γ : Type} {γ' : Type*} {list : Option γ → Option (ListPage ρ γ)} {cursorOf : ρ → γ}
  {limit : Nat}

theorem followList_succ {cursor : Option γ} {found : List ρ}
    (hpage : list cursor = some (listPage limit cursorOf found)) (fuel : Nat) :
    followList list (fuel + 1) cursor =
      if limit < found.length then
        (found.take limit).getLast?.bind fun r =>
          (followList list fuel (some (cursorOf r))).map (found.take limit ++ ·)
      else
        some (found.take limit) := by
  conv_lhs => unfold followList
  rw [hpage]
  by_cases hmore : limit < found.length
  · simp only [listPage, hmore, decide_true, if_true]
    cases (found.take limit).getLast? <;> rfl
  · simp only [listPage, hmore, decide_false, Bool.false_eq_true, if_false]

theorem followList_eq_readPages {μ : Type*} [LinearOrder μ] {key : ρ → μ}
    {selects : γ' → ρ → Bool} {rows : List ρ} (cursorOf : ρ → γ) (read : γ → Option γ')
    (hfirst : list none = some (listPage limit cursorOf
      ((inOrder key (rows.filter (selected selects none))).take (limit + 1))))
    (hnext : ∀ c, list (some c) = (read c).map fun c' => listPage limit cursorOf
      ((inOrder key (rows.filter (selected selects (some c')))).take (limit + 1))) (fuel : Nat) :
    followList list fuel none =
      readPages key selects (fun r => read (cursorOf r)) limit rows fuel none := by
  have hpage : ∀ fuel cursor cursor', (list cursor = some (listPage limit cursorOf
      ((inOrder key (rows.filter (selected selects cursor'))).take (limit + 1)))) →
      followList list fuel cursor =
        readPages key selects (fun r => read (cursorOf r)) limit rows fuel cursor' := by
    intro fuel
    induction fuel with
    | zero =>
        intro cursor cursor' _
        rfl
    | succ fuel ih =>
        intro cursor cursor' hlist
        rw [followList_succ hlist]
        conv_rhs => unfold readPages
        dsimp only
        split
        · cases hlast : (((inOrder key (rows.filter (selected selects cursor'))).take
              (limit + 1)).take limit).getLast? with
          | none => rfl
          | some r =>
              rw [Option.bind_some, Option.bind_some]
              cases hread : read (cursorOf r) with
              | none =>
                  have hrejected : list (some (cursorOf r)) = none := by
                    rw [hnext, hread]
                    rfl
                  cases fuel with
                  | zero => rfl
                  | succ fuel =>
                      rw [followList, hrejected]
                      rfl
              | some c =>
                  have hlist' := hnext (cursorOf r)
                  rw [hread, Option.map_some] at hlist'
                  rw [ih _ _ hlist']
        · rfl
  exact hpage fuel none none hfirst

end Follow

/-- `if (opts.x)`: an empty text is no filter. -/
def filteredBy (filter value : Option String) : Bool :=
  match filter with
  | none => true
  | some text => text = "" || value = some text

/-! ## Histories -/

/-- `audit_events`, with the columns that its list reads. -/
structure AuditEventRow where
  id : Uuid
  actor : String
  action : String
  problemId : Option String
  createdAt : Timestamp
  deriving DecidableEq, Repr

structure HistoryCursor where
  createdAt : Timestamp
  id : Uuid
  deriving DecidableEq, Repr

section Histories

variable {ρ : Type} (createdAt : ρ → Timestamp) (id : ρ → Uuid)

/-- `ORDER BY created_at DESC, id DESC`. -/
def historyKey (r : ρ) : (Timestamp ×ₗ Uuid)ᵒᵈ := OrderDual.toDual (toLex (createdAt r, id r))

/-- `(created_at, id) < ($1::timestamptz, $2::uuid)`. -/
def earlierThan (c : HistoryCursor) (r : ρ) : Bool :=
  createdAt r < c.createdAt || (createdAt r = c.createdAt && id r < c.id)

/-- `{ created_at: toRfc3339(row.created_at), id }`. -/
def historyCursor (r : ρ) : HistoryCursor := ⟨toRfc3339 (createdAt r), id r⟩

def listHistory (limit : Nat) (rows : List ρ) (cursor : Option HistoryCursor) :
    ListPage ρ HistoryCursor :=
  let limit := min limit 200
  listPage limit (historyCursor createdAt id)
    ((inOrder (historyKey createdAt id)
      (rows.filter fun r => cursor.all fun c => earlierThan createdAt id c r)).take (limit + 1))

end Histories

def JobState.text : JobState → String
  | .pending => "pending"
  | .running => "running"
  | .completed => "completed"
  | .failed => "failed"
  | .cancelled => "cancelled"

/-- The rows that `listJobs` selects. -/
def jobsOf (state problemId : Option String) (jobs : List JobRow) : List JobRow :=
  jobs.filter fun j => filteredBy state (some j.state.text) && filteredBy problemId j.problemId

def listJobs (state problemId : Option String) (limit : Nat) (jobs : List JobRow)
    (cursor : Option HistoryCursor) : ListPage JobRow HistoryCursor :=
  listHistory JobRow.createdAt JobRow.id limit (jobsOf state problemId jobs) cursor

def snapshotsOf (problemId : Option String) (snapshots : List SnapshotRow) : List SnapshotRow :=
  snapshots.filter fun s => filteredBy problemId (some s.problemId)

def listSnapshots (problemId : Option String) (limit : Nat) (snapshots : List SnapshotRow)
    (cursor : Option HistoryCursor) : ListPage SnapshotRow HistoryCursor :=
  listHistory SnapshotRow.createdAt SnapshotRow.id limit (snapshotsOf problemId snapshots) cursor

structure AuditFilter where
  actor : Option String := none
  action : Option String := none
  problemId : Option String := none
  fromTime : Option Timestamp := none
  toTime : Option Timestamp := none
  deriving DecidableEq, Repr

def auditEventsOf (f : AuditFilter) (events : List AuditEventRow) : List AuditEventRow :=
  events.filter fun e =>
    (f.fromTime.all fun t => t ≤ e.createdAt) && (f.toTime.all fun t => e.createdAt ≤ t) &&
      filteredBy f.actor (some e.actor) && filteredBy f.action (some e.action) &&
      filteredBy f.problemId e.problemId

def listAuditEvents (f : AuditFilter) (limit : Nat) (events : List AuditEventRow)
    (cursor : Option HistoryCursor) : ListPage AuditEventRow HistoryCursor :=
  listHistory AuditEventRow.createdAt AuditEventRow.id limit (auditEventsOf f events) cursor

/-! ## Problems -/

inductive SortColumn where
  | externalId | code | ownerOrganization | observedAt
  deriving DecidableEq, Repr

inductive SortOrder where
  | asc | desc
  deriving DecidableEq, Repr

/-- `mapSortColumn(opts.sort || 'external_id', …)`. -/
def mapSortColumn (sort : Option String) : SortColumn :=
  if sort = some "code" then .code
  else if sort = some "owner_organization" then .ownerOrganization
  else if sort = some "observed_at" then .observedAt
  else .externalId

structure ProblemQuery where
  search : Option String := none
  ownerOrg : Option String := none
  catalogState : Option String := none
  sort : Option String := none
  order : SortOrder := .asc
  deriving DecidableEq, Repr

structure ProblemCursor where
  value : String
  id : String
  deriving DecidableEq, Repr

def CatalogState.text : CatalogState → String
  | .present => "present"
  | .missing => "missing"
  | .deleted => "deleted"
  | .orphan => "orphan"
  | .mirror => "mirror"

/-- The filters of `listProblems`. -/
def problemsOf (ilike : String → String → Bool) (q : ProblemQuery) (problems : List ProblemRow) :
    List ProblemRow :=
  problems.filter fun p =>
    (q.search.all fun text => text = "" || ilike p.code ("%" ++ text ++ "%") ||
      ilike p.externalId ("%" ++ text ++ "%")) &&
      filteredBy q.ownerOrg p.ownerOrganization &&
      filteredBy q.catalogState (some p.catalogState.text)

section Problems

variable {κ : Type*} [LinearOrder κ] (collate : String → κ) (dateText : Timestamp → String)
  (castTimestamp : String → Option Timestamp)

/-- The column of a row, `none` for `NULL`; texts are in the order of the collation. -/
def SortColumn.value (p : ProblemRow) : SortColumn → Option (κ ⊕ₗ Timestamp)
  | .externalId => some (toLex (.inl (collate p.externalId)))
  | .code => some (toLex (.inl (collate p.code)))
  | .ownerOrganization => p.ownerOrganization.map fun owner => toLex (.inl (collate owner))
  | .observedAt => some (toLex (.inr p.observedAt))

/-- `String(last[sortField] ?? '')`. -/
def SortColumn.text (p : ProblemRow) : SortColumn → String
  | .externalId => p.externalId
  | .code => p.code
  | .ownerOrganization => p.ownerOrganization.getD ""
  | .observedAt => dateText p.observedAt

/-- What the database compares the column with; `none` when it rejects the text. -/
def SortColumn.cast (value : String) : SortColumn → Option (κ ⊕ₗ Timestamp)
  | .externalId | .code | .ownerOrganization => some (toLex (.inl (collate value)))
  | .observedAt => (castTimestamp value).map fun t => toLex (.inr t)

/-- `ORDER BY column ASC, external_id ASC`: a `NULL` comes last. -/
def problemKey (column : SortColumn) (p : ProblemRow) : WithTop (κ ⊕ₗ Timestamp) ×ₗ κ :=
  toLex (column.value collate p, collate p.externalId)

/-- `(column, external_id) > ($1, $2)`, or `<`: of a `NULL` it is unknown. -/
def problemBeyond (order : SortOrder) (column : SortColumn) (value : κ ⊕ₗ Timestamp)
    (id : String) (p : ProblemRow) : Bool :=
  match column.value collate p with
  | none => false
  | some v =>
      match order with
      | .asc => value < v || (value = v && collate id < collate p.externalId)
      | .desc => v < value || (v = value && collate p.externalId < collate id)

def problemsInOrder (order : SortOrder) (column : SortColumn) (problems : List ProblemRow) :
    List ProblemRow :=
  match order with
  | .asc => inOrder (problemKey collate column) problems
  | .desc => inOrder (fun p => OrderDual.toDual (problemKey collate column p)) problems

/-- `none` when the query fails. -/
def listProblems (ilike : String → String → Bool) (q : ProblemQuery) (limit : Nat)
    (problems : List ProblemRow) (cursor : Option ProblemCursor) :
    Option (ListPage ProblemRow ProblemCursor) :=
  let column := mapSortColumn q.sort
  let limit := min limit 200
  let rows := problemsOf ilike q problems
  let selected : Option (List ProblemRow) :=
    match cursor with
    | none => some rows
    | some c => (column.cast collate castTimestamp c.value).map fun value =>
        rows.filter (problemBeyond collate q.order column value c.id)
  selected.map fun rows =>
    listPage limit (fun p => ⟨column.text dateText p, p.externalId⟩)
      ((problemsInOrder collate q.order column rows).take (limit + 1))

end Problems

end ExternalStorage.Model
