import ExternalStorage.Library.Json
import ExternalStorage.Model.Leases
import ExternalStorage.Model.Lists
import ExternalStorage.Model.Catalog

/-!
# Backfilling the catalog

`backfill_state`, the statements of the routes and of `JobWorker.backfill` on it, and the
jobs that a page of a backfill asks for.
-/

namespace ExternalStorage.Model

open Library Library.Table Library.Paging

inductive BackfillStatus where
  | pending | running | paused | completed | failed
  deriving DecidableEq, Repr

/-- `total_processed`, `total_ready`, `total_error`, `total_skipped` and `bytes_hashed`. -/
structure Totals where
  processed : Int := 0
  ready : Int := 0
  error : Int := 0
  skipped : Int := 0
  bytesHashed : Int := 0
  deriving DecidableEq, Repr

def Totals.add (t u : Totals) : Totals :=
  ⟨t.processed + u.processed, t.ready + u.ready, t.error + u.error, t.skipped + u.skipped,
    t.bytesHashed + u.bytesHashed⟩

def Totals.failed (t : Totals) : Totals := { t with error := t.error + 1 }

def Totals.succeeded (t : Totals) (bytes : Int) : Totals :=
  { t with ready := t.ready + 1, bytesHashed := t.bytesHashed + bytes }

/-- A problem of a capability the worker does not know. -/
def Totals.passed (t : Totals) : Totals := { t with skipped := t.skipped + 1 }

/-- `backfill_state`: `capability` is unique.  `cursorValue` is what `encodeCursor` encodes. -/
structure BackfillStateRow where
  capability : String
  cursorValue : Option ProblemCursor := none
  status : BackfillStatus
  totals : Totals := {}
  deriving DecidableEq, Repr

/-! ## The routes -/

/-- The upsert of `POST /api/v1/backfill/:capability/start`; without a row it answers 409. -/
def startBackfill (capability : String) (rows : List BackfillStateRow) :
    Option (List BackfillStateRow) :=
  if rows.any fun r => r.capability = capability && r.status = .running then
    none
  else
    some (upsertOn BackfillStateRow.capability { capability := capability, status := .running }
      (fun r => { r with status := .running }) rows)

/-- `POST /api/v1/backfill/:capability/pause`. -/
def pauseBackfill (capability : String) (rows : List BackfillStateRow) : List BackfillStateRow :=
  updateWhere (fun r => r.capability = capability) (fun r => { r with status := .paused }) rows

/-! ## A page -/

structure BackfillConfig where
  capability : String
  limit : Nat
  positive : 0 < limit
  deriving Repr

instance : DecidableEq BackfillConfig := fun c d =>
  decidable_of_iff (c.capability = d.capability ∧ c.limit = d.limit)
    ⟨fun ⟨hcapability, hlimit⟩ => by
      cases c
      cases d
      cases hcapability
      cases hlimit
      rfl,
    fun h => ⟨congrArg _ h, congrArg _ h⟩⟩

/-- `cfg.capability ?? 'accounting'` and `Math.min(cfg.limit ?? 25, 500)`.  The route and the
worker attach no limit below 1. -/
def backfillConfig (payload : Option JobPayload) : Option BackfillConfig :=
  let cfg := payload.getD {}
  let limit := (min (cfg.limit.getD 25) 500).toNat
  if h : 0 < limit then some ⟨cfg.capability.getD "accounting", limit, h⟩ else none

/-- `SELECT * FROM backfill_state WHERE capability = $1`. -/
def backfillCursor (capability : String) (rows : List BackfillStateRow) : Option ProblemCursor :=
  (rows.find? fun r => r.capability = capability).bind BackfillStateRow.cursorValue

section Page

variable {κ : Type*} [LinearOrder κ] (collate : String → κ)

/-- `listProblems` as the worker calls it. -/
def backfillPage (limit : Nat) (problems : List ProblemRow) (cursor : Option ProblemCursor) :
    ListPage ProblemRow ProblemCursor :=
  let limit := min limit 200
  listPage limit (fun p => ⟨p.externalId, p.externalId⟩)
    ((inOrder (problemKey collate .externalId) (problems.filter fun p => cursor.all fun c =>
      problemBeyond collate .asc .externalId (toLex (.inl (collate c.value))) c.id p)).take
        (limit + 1))

/-- A cursor is behind another; no cursor stands before the first problem. -/
def cursorBehind : Option ProblemCursor → Option ProblemCursor → Prop
  | _, none => False
  | none, some _ => True
  | some c, some d => collate c.value < collate d.value ∨
      (collate c.value = collate d.value ∧ collate c.id < collate d.id)

instance (c d : Option ProblemCursor) : Decidable (cursorBehind collate c d) := by
  unfold cursorBehind
  split <;> infer_instance

variable {collate}

theorem cursorBehind_trans {c d e : Option ProblemCursor} (hcd : cursorBehind collate c d)
    (hde : cursorBehind collate d e) : cursorBehind collate c e := by
  cases e with
  | none => exact hde.elim
  | some e =>
      cases d with
      | none => exact hcd.elim
      | some d =>
          cases c with
          | none => trivial
          | some c =>
              rcases hcd with hcd | ⟨hcd, hcd'⟩
              · rcases hde with hde | ⟨hde, -⟩
                · exact .inl (hcd.trans hde)
                · exact .inl (hde ▸ hcd)
              · rcases hde with hde | ⟨hde, hde'⟩
                · exact .inl (hcd ▸ hde)
                · exact .inr ⟨hcd.trans hde, hcd'.trans hde'⟩

theorem cursorBehind_of_beyond {c : ProblemCursor} {p : ProblemRow}
    (h : problemBeyond collate .asc .externalId (toLex (.inl (collate c.value))) c.id p = true) :
    cursorBehind collate (some c) (some ⟨p.externalId, p.externalId⟩) := by
  simp only [problemBeyond, SortColumn.value, Bool.or_eq_true, Bool.and_eq_true,
    decide_eq_true_eq, Sum.Lex.inl_lt_inl_iff, toLex_inj, Sum.inl.injEq] at h
  exact h

theorem backfillPage_next {limit : Nat} (hlimit : 0 < limit) {problems : List ProblemRow}
    {cursor : Option ProblemCursor}
    (hmore : (backfillPage collate limit problems cursor).hasMore = true) :
    cursorBehind collate cursor (backfillPage collate limit problems cursor).nextCursor := by
  unfold backfillPage listPage at hmore ⊢
  dsimp only at hmore ⊢
  rw [if_pos hmore]
  rw [decide_eq_true_eq] at hmore
  generalize hfound : (inOrder (problemKey collate .externalId) (problems.filter fun p =>
    cursor.all fun c => problemBeyond collate .asc .externalId (toLex (.inl (collate c.value)))
      c.id p)).take (min limit 200 + 1) = found at hmore ⊢
  have hselected : ∀ p ∈ found, (cursor.all fun c =>
      problemBeyond collate .asc .externalId (toLex (.inl (collate c.value))) c.id p) = true := by
    intro p hp
    rw [← hfound] at hp
    exact (List.mem_filter.mp ((perm_inOrder _).mem_iff.mp (List.mem_of_mem_take hp))).2
  have hne : found.take (min limit 200) ≠ [] := by
    intro hnil
    have hlength := congrArg List.length hnil
    rw [List.length_take, List.length_nil] at hlength
    omega
  rw [List.getLast?_eq_getLast_of_ne_nil hne, Option.map_some]
  cases cursor with
  | none => trivial
  | some c =>
      exact cursorBehind_of_beyond (hselected _ (List.mem_of_mem_take (List.getLast_mem hne)))

end Page

/-! ## Its statements -/

structure BackfillPage where
  config : BackfillConfig
  start : Option ProblemCursor
  page : ListPage ProblemRow ProblemCursor
  deriving DecidableEq, Repr

/-- The `UPDATE` at the end of a page. -/
def addPage (p : BackfillPage) (t : Totals) (rows : List BackfillStateRow) :
    List BackfillStateRow :=
  updateWhere (fun r => r.capability = p.config.capability)
    (fun r => { r with
      cursorValue := p.page.nextCursor
      status := if p.page.hasMore then .running else .completed
      totals := r.totals.add { t with processed := p.page.items.length } }) rows

def childRequest (job : Uuid) (capability problemId : String) (generation : Int) :
    JobRequest where
  idempotencyKey := toString job ++ ":snapshot:" ++ problemId ++ ":" ++ toString generation
  jobType := .snapshot
  problemId := some problemId
  targetGeneration := some generation
  fingerprint := String.ofList (Json.object
    [("capability", .str capability), ("generation", .num generation),
      ("problem_id", .str problemId)])

/-- `encode` is `encodeCursor`; a page with more behind it has a cursor. -/
def continuationRequest (encode : ProblemCursor → String) (job : Uuid) (p : BackfillPage) :
    JobRequest where
  idempotencyKey := toString job ++ ":" ++ (p.page.nextCursor.map encode).getD "null"
  jobType := .backfill
  problemId := none
  targetGeneration := none
  fingerprint := String.ofList (Json.object
    [("action", .str "backfill-page"), ("capability", .str p.config.capability),
      ("cursor", (p.page.nextCursor.map fun c => Json.Value.str (encode c)).getD .null),
      ("limit", .num p.config.limit)])

def createWithPayload (now : Timestamp) (id : Uuid) (r : JobRequest) (payload : JobPayload)
    (db : Database) : Except CreateJobError Database :=
  (createJob now id r db).map fun a => setJobPayload a.2.id payload a.1

end ExternalStorage.Model
