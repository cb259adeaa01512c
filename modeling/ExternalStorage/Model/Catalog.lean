import ExternalStorage.Library.Json
import ExternalStorage.Model.Tables

/-!
# Catalog statements

`upsertProblem` and `markProblemDirtyIdempotent` of the control plane.  Both may claim
an orphan that a scan has found: the row `orphan:<code>` gets the catalog's id, and
migration 006 makes the foreign keys follow.
-/

namespace ExternalStorage.Model

open Library Library.Table

inductive CatalogError where
  | codeConflict (code externalId : String)
  | orphanHistoryConflict (code : String)
  | idempotencyConflict
  /-- A unique key turns the statement down. -/
  | duplicateKey
  /-- A foreign key names the row that a statement deletes. -/
  | stillReferenced
  deriving DecidableEq, Repr

/-- What the catalog says of a problem. -/
structure CatalogEntry where
  externalId : String
  code : String
  ownerOrganization : Option String
  isManuallyManaged : Bool
  mirrorOf : Option String
  mirrorRoot : Option String
  quotaBytes : Option Int
  schemaVersion : Int
  deriving DecidableEq, Repr

def orphanId (code : String) : String := "orphan:" ++ code

theorem orphanId_inj {code code' : String} (h : orphanId code = orphanId code') : code = code' := by
  have hlist := congrArg String.toList h
  rw [orphanId, orphanId, String.toList_append, String.toList_append] at hlist
  exact String.toList_inj.mp (List.append_cancel_left hlist)

/-! ## The rekey -/

def renamed (old new id : String) : String := if id = old then new else id

/-- `UPDATE problems SET external_id = new WHERE external_id = old`, with the `ON UPDATE
CASCADE` of migration 006.  `job_fencing_counters` has no foreign key. -/
def rekeyProblem (old new : String) (db : Database) : Database :=
  { db with
    problems := db.problems.map fun p => { p with
      externalId := renamed old new p.externalId
      mirrorOf := p.mirrorOf.map (renamed old new)
      mirrorRoot := p.mirrorRoot.map (renamed old new) }
    problemUsage := db.problemUsage.map fun u =>
      { u with problemId := renamed old new u.problemId }
    snapshots := db.snapshots.map fun s => { s with problemId := renamed old new s.problemId }
    jobs := db.jobs.map fun j => { j with problemId := j.problemId.map (renamed old new) }
    problemGenerationCounters := db.problemGenerationCounters.map fun c =>
      { c with problemId := renamed old new c.problemId }
    idempotencyKeys := db.idempotencyKeys.map fun k =>
      { k with responseProblemId := k.responseProblemId.map (renamed old new) } }

/-- The claim of an orphan: the row is there and an orphan; the primary key may be taken. -/
def claimOrphan (code externalId : String) (db : Database) : Except CatalogError Database :=
  if db.problems.any fun p => p.externalId = orphanId code && p.code = code &&
      p.catalogState = .orphan then
    if db.problems.any fun p => p.externalId = externalId then
      .error .duplicateKey
    else
      .ok (rekeyProblem (orphanId code) externalId db)
  else
    .ok db

/-! ## `upsertProblem` -/

def mergeUsage (orphan problemId : String) (usage : List ProblemUsageRow) :
    List ProblemUsageRow :=
  match usage.find? fun u => u.problemId = orphan with
  | none => usage
  | some o =>
      upsertOn ProblemUsageRow.problemId
        { o with
          problemId := problemId, localStatus := .present, r2Status := .none
          snapshotGeneration := none, lastAccessedAt := none }
        (fun u => { u with
          logicalBytes := o.logicalBytes, allocatedBytes := o.allocatedBytes
          archiveBytes := o.archiveBytes, auxiliaryBytes := o.auxiliaryBytes
          fileCount := o.fileCount, localStatus := .present, orphanBytes := o.orphanBytes
          observedAt := max u.observedAt o.observedAt, stale := o.stale })
        usage

def ProblemRow.mirrors (p : ProblemRow) (externalId : String) : Bool :=
  p.mirrorOf = some externalId || p.mirrorRoot = some externalId

def keyed (keys : List IdempotencyKeyRow) (externalId : String) : Bool :=
  keys.any fun k => k.responseProblemId = some externalId

/-- A foreign key without `ON DELETE` names the problem.  What a row says of itself goes with it. -/
def referenced (externalId : String) (db : Database) : Bool :=
  (db.problems.any fun p => p.externalId ≠ externalId && p.mirrors externalId) ||
    keyed db.idempotencyKeys externalId

/-- `DELETE FROM problems` cascades to the projections of the problem; an orphan that is
deleted here has no snapshots and no jobs. -/
def withoutOrphan (orphan : String) (db : Database) : Database :=
  { db with
    problems := deleteWhere (fun p => p.externalId = orphan && p.catalogState = .orphan)
      db.problems
    problemUsage := deleteWhere (fun u => u.problemId = orphan) db.problemUsage
    problemGenerationCounters := deleteWhere (fun c => c.problemId = orphan)
      db.problemGenerationCounters }

def deleteOrphan (orphan : String) (db : Database) : Except CatalogError Database :=
  if referenced orphan db then .error .stillReferenced else .ok (withoutOrphan orphan db)

theorem deleteOrphan_eq_ok {orphan : String} {db db' : Database} :
    deleteOrphan orphan db = .ok db' ↔
      referenced orphan db = false ∧ withoutOrphan orphan db = db' := by
  unfold deleteOrphan
  cases referenced orphan db <;> simp

def hasHistory (problemId : String) (db : Database) : Bool :=
  db.snapshots.any (fun s => s.problemId = problemId) ||
    db.jobs.any fun j => j.problemId = some problemId

/-- What `upsertProblem` does about a row that has the code under another id. -/
def resolveCode (e : CatalogEntry) (db : Database) : Except CatalogError Database :=
  match db.problems.find? fun p => p.code = e.code with
  | none => .ok db
  | some owner =>
      if owner.externalId = e.externalId then
        .ok db
      else if owner.catalogState ≠ .orphan || owner.externalId ≠ orphanId e.code then
        .error (.codeConflict e.code owner.externalId)
      else if db.problems.any fun p => p.externalId = e.externalId then
        if hasHistory (orphanId e.code) db then
          .error (.orphanHistoryConflict e.code)
        else
          deleteOrphan (orphanId e.code)
            { db with
              problemUsage := mergeUsage (orphanId e.code) e.externalId db.problemUsage }
      else
        claimOrphan e.code e.externalId db

/-- The columns a catalog write sets on an existing row. -/
def ProblemRow.cataloged (now : Timestamp) (e : CatalogEntry) (state : CatalogState)
    (p : ProblemRow) : ProblemRow :=
  { p with
    code := e.code, ownerOrganization := e.ownerOrganization
    isManuallyManaged := e.isManuallyManaged, mirrorOf := e.mirrorOf, mirrorRoot := e.mirrorRoot
    quotaBytes := e.quotaBytes, schemaVersion := e.schemaVersion, catalogState := state
    observedAt := now, stale := false }

def catalogRow (now : Timestamp) (e : CatalogEntry) (state : CatalogState) : ProblemRow where
  externalId := e.externalId
  code := e.code
  ownerOrganization := e.ownerOrganization
  isManuallyManaged := e.isManuallyManaged
  mirrorOf := e.mirrorOf
  mirrorRoot := e.mirrorRoot
  catalogState := state
  observedAt := now
  stale := false
  dirty := false
  dirtyGeneration := none
  dirtyVersion := 0
  quotaBytes := e.quotaBytes
  schemaVersion := e.schemaVersion

def codeTaken (e : CatalogEntry) (problems : List ProblemRow) : Bool :=
  problems.any fun p => p.code = e.code && p.externalId ≠ e.externalId

def upsertProblem (now : Timestamp) (e : CatalogEntry) (db : Database) :
    Except CatalogError Database := do
  let resolved ← resolveCode e db
  if codeTaken e resolved.problems then
    throw .duplicateKey
  return { resolved with
    problems := upsertOn ProblemRow.externalId (catalogRow now e .present)
      (ProblemRow.cataloged now e .present) resolved.problems }

/-! ## `markProblemDirtyIdempotent` -/

/-- What `markProblemDirtyIdempotent` does about a row that has the code under another id. -/
def claimCode (e : CatalogEntry) (db : Database) : Except CatalogError Database :=
  match db.problems.find? fun p => p.code = e.code with
  | none => .ok db
  | some owner =>
      if owner.externalId = e.externalId then
        .ok db
      else if owner.catalogState ≠ .orphan || owner.externalId ≠ orphanId e.code then
        .error (.codeConflict e.code owner.externalId)
      else
        claimOrphan e.code e.externalId db

/-- `allocateGenerationOnClient`. -/
def allocateGeneration (problemId : String) (counters : List GenerationCounterRow) :
    List GenerationCounterRow × Int :=
  let counters := upsertOn GenerationCounterRow.problemId ⟨problemId, 2⟩
    (fun c => { c with nextGeneration := c.nextGeneration + 1 }) counters
  (counters, ((counters.find? fun c => c.problemId = problemId).map
    GenerationCounterRow.nextGeneration).getD 1 - 1)

def ProblemRow.notified (now : Timestamp) (e : CatalogEntry) (p : ProblemRow) : ProblemRow :=
  { p.cataloged now e .present with
    dirty := true, dirtyVersion := p.dirtyVersion + 1, dirtyGeneration := none, stale := true }

def ProblemRow.tombstoned (now : Timestamp) (e : CatalogEntry) (p : ProblemRow) : ProblemRow :=
  { p.cataloged now e .deleted with dirty := false, dirtyGeneration := none }

/-- The mutation of a notification that is not a replay. -/
def notifyProblem (now : Timestamp) (e : CatalogEntry) (deleted : Bool) (db : Database) :
    Database :=
  if deleted then
    { db with
      problems := upsertOn ProblemRow.externalId (catalogRow now e .deleted)
        (ProblemRow.tombstoned now e) db.problems }
  else
    let problems := upsertOn ProblemRow.externalId
      { catalogRow now e .present with dirty := true, dirtyVersion := 1, stale := true }
      (ProblemRow.notified now e) db.problems
    let (counters, generation) := allocateGeneration e.externalId db.problemGenerationCounters
    { db with
      problemGenerationCounters := counters
      problems := updateWhere (fun p => p.externalId = e.externalId && p.dirty)
        (fun p => { p with dirtyGeneration := some generation }) problems }

def nullable (text : Option String) : Json.Value := text.elim .null .str

/-- `stableFingerprint` of a notification: the JSON text of its body, the keys in order.  The
route has made a text of the quota. -/
def stableFingerprint (e : CatalogEntry) (deleted : Bool) : String :=
  String.ofList (Json.object
    [("catalog_state", .str (if deleted then "deleted" else "present")),
      ("code", .str e.code),
      ("external_id", .str e.externalId),
      ("is_manually_managed", .bool e.isManuallyManaged),
      ("mirror_of", nullable e.mirrorOf),
      ("mirror_root", nullable e.mirrorRoot),
      ("owner_organization", nullable e.ownerOrganization),
      ("quota_bytes", nullable (e.quotaBytes.map fun n => String.ofList (Json.decimal n))),
      ("schema_version", .num e.schemaVersion)])

theorem nullable_inj {text text' : Option String} (h : nullable text = nullable text') :
    text = text' := by
  cases text <;> cases text' <;> simp_all [nullable]

theorem stableFingerprint_inj {e e' : CatalogEntry} {deleted deleted' : Bool}
    (h : stableFingerprint e deleted = stableFingerprint e' deleted') :
    e = e' ∧ deleted = deleted' := by
  have hmembers := Json.object_inj (String.ofList_injective h)
  simp only [List.cons.injEq, Prod.mk.injEq, Json.Value.str.injEq, Json.Value.bool.injEq,
    Json.Value.num.injEq, true_and, and_true] at hmembers
  obtain ⟨hstate, hcode, hid, hmanual, hof, hroot, howner, hquota, hversion⟩ := hmembers
  have hdecimal : Function.Injective fun n => String.ofList (Json.decimal n) :=
    fun m n hmn => Json.decimal_inj (String.ofList_injective hmn)
  refine ⟨?_, ?_⟩
  · cases e
    cases e'
    simp only [CatalogEntry.mk.injEq]
    exact ⟨hid, hcode, nullable_inj howner, hmanual, nullable_inj hof, nullable_inj hroot,
      Option.map_injective hdecimal (nullable_inj hquota), hversion⟩
  · cases deleted <;> cases deleted' <;> simp_all

/-- `markProblemDirtyIdempotent`, with whether it mutated the problem.  `fingerprint` is
`stableFingerprint` of the request. -/
def markProblemDirtyIdempotent (now : Timestamp) (idempotencyKey actor fingerprint : String)
    (e : CatalogEntry) (deleted : Bool) (db : Database) : Except CatalogError (Database × Bool) := do
  let claimed ← claimCode e db
  match claimed.idempotencyKeys.find? fun k =>
      k.idempotencyKey = idempotencyKey && k.scope = "problem.dirty" with
  | some row =>
      if row.requestFingerprint ≠ fingerprint || row.targetId ≠ e.externalId then
        throw .idempotencyConflict
      if claimed.problems.any fun p => p.externalId = row.responseProblemId.getD e.externalId then
        return (claimed, false)
      throw .idempotencyConflict
  | none =>
      if codeTaken e claimed.problems then
        throw .duplicateKey
      return ({ notifyProblem now e deleted claimed with
        idempotencyKeys := claimed.idempotencyKeys ++
          [⟨idempotencyKey, "problem.dirty", actor, fingerprint, e.externalId,
            some e.externalId⟩] }, true)

/-! ## `catalog/problems:reconcile` -/

/-- `byId.get`; of equal keys a `Map` keeps the last. -/
def byId (entries : List CatalogEntry) (externalId : String) : Option CatalogEntry :=
  entries.reverse.find? fun e => e.externalId = externalId

def emitted (ordered : List CatalogEntry) (externalId : String) : Bool :=
  ordered.any fun e => e.externalId = externalId

/-- `emit`: the problem that `p` mirrors goes first.  `guard` grows with every call, so there
are no more calls inside each other than entries. -/
def emit (entries : List CatalogEntry) :
    Nat → CatalogEntry → List String → List CatalogEntry → List CatalogEntry
  | 0, _, _, ordered => ordered
  | fuel + 1, p, guard, ordered =>
      if emitted ordered p.externalId || guard.contains p.externalId then
        ordered
      else
        let ordered :=
          match p.mirrorOf.bind (byId entries) with
          | none => ordered
          | some parent =>
              if emitted ordered parent.externalId then ordered
              else emit entries fuel parent (p.externalId :: guard) ordered
        if emitted ordered p.externalId then ordered else ordered ++ [p]

def reconcileOrder (entries : List CatalogEntry) : List CatalogEntry :=
  entries.foldl (fun ordered p => emit entries (entries.length + 1) p [] ordered) []

inductive ReconcileError where
  | catalog (err : CatalogError)
  /-- `mirror_of` or `mirror_root` names a problem that has no row. -/
  | foreignKey (externalId : String)
  deriving DecidableEq, Repr

/-- The self references of `problems`. -/
def mirrorsStored (e : CatalogEntry) (problems : List ProblemRow) : Bool :=
  [e.mirrorOf, e.mirrorRoot].all fun reference =>
    match reference with
    | none => true
    | some id => problems.any fun p => p.externalId = id

/-- The call of `upsertProblem` for one entry, with the foreign keys it meets. -/
def upsertListed (now : Timestamp) (db : Database) (e : CatalogEntry) :
    Except ReconcileError Database :=
  match upsertProblem now e db with
  | .error err => .error (.catalog err)
  | .ok upserted =>
      if mirrorsStored e upserted.problems then .ok upserted
      else .error (.foreignKey e.externalId)

def CatalogState.live : CatalogState → Bool
  | .present | .mirror | .missing => true
  | .orphan | .deleted => false

def markMissingOutsideCatalog (now : Timestamp) (externalIds : List String) (db : Database) :
    Database :=
  if externalIds.isEmpty then
    db
  else
    { db with
      problems := updateWhere
        (fun p => p.catalogState.live && !externalIds.contains p.externalId)
        (fun p => { p with catalogState := .deleted, observedAt := now, stale := false })
        db.problems }

/-- The handler up to `markMissingOutsideCatalog`; each upsert is a transaction of its own. -/
def reconcile (now : Timestamp) (entries : List CatalogEntry) (db : Database) :
    Except ReconcileError Database := do
  let upserted ← (reconcileOrder entries).foldlM (upsertListed now) db
  return markMissingOutsideCatalog now (entries.map CatalogEntry.externalId) upserted

end ExternalStorage.Model
