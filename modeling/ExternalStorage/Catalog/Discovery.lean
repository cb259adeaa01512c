import ExternalStorage.Catalog.Upserts
import ExternalStorage.Library.Runs
import ExternalStorage.Model.Usage

/-!
# A catalog write beside the discovery of its folder

`upsertProblem` and the data plane's `upsert_discovered_usage` and `upsert_problem`, statement
by statement, over the committed database.  A statement sees what has been committed when it
starts and what its own transaction has written.  It waits for rows that the other side has
locked, and an insert waits for an uncommitted row with the same key.
-/

namespace ExternalStorage.Catalog

open ExternalStorage.Model Library.Runs Library.Table

/-! ## `upsertProblem` -/

/-- What a catalog write does about the row that has its code. -/
inductive Settlement where
  /-- There is none. -/
  | free
  | own
  | merge
  | rekey
  deriving DecidableEq, Repr

inductive UpsertPhase where
  | called
  /-- The advisory locks are held. -/
  | locked
  /-- The row of the code is selected, and is the orphan's. -/
  | orphanHeld
  /-- The row of the problem is selected too. -/
  | targetHeld
  /-- The orphan has no history. -/
  | mergeable
  | usageMerged
  /-- The problem has no row. -/
  | vacant
  | settled (how : Settlement)
  | written (how : Settlement)
  | returned (result : Except CatalogError Settlement)
  | aborted
  deriving DecidableEq

/-- The keys of the advisory locks; `hashtextextended` is taken to tell them apart. -/
def upsertKeys (e : CatalogEntry) : List String := ["code:" ++ e.code, "problem:" ++ e.externalId]

def settledDb (e : CatalogEntry) (how : Settlement) (db : Database) : Database :=
  match how with
  | .free | .own => db
  | .merge => merged e db
  | .rekey => rekeyProblem (orphanId e.code) e.externalId db

def writtenDb (now : Timestamp) (e : CatalogEntry) (how : Settlement) (db : Database) : Database :=
  { settledDb e how db with problems := cataloged now e (settledDb e how db).problems }

/-- The committed rows of `problems` that the transaction has locked. -/
def UpsertPhase.locks (e : CatalogEntry) : UpsertPhase → List String
  | .orphanHeld | .vacant | .settled .rekey => [orphanId e.code]
  | .targetHeld | .mergeable | .usageMerged | .settled .merge | .written .merge
  | .written .rekey => [orphanId e.code, e.externalId]
  | .settled .own | .written .free | .written .own => [e.externalId]
  | _ => []

def UpsertPhase.writes : UpsertPhase → Bool
  | .settled .merge | .settled .rekey | .written _ => true
  | _ => false

def UpsertPhase.ended : UpsertPhase → Bool
  | .returned _ | .aborted => true
  | _ => false

/-! ## The data plane -/

inductive DiscoveryCall where
  /-- `upsert_discovered_usage`. -/
  | usage (scan : ScanResult)
  /-- `upsert_problem` of an orphan. -/
  | orphan (externalId : String) (ownerOrganization : Option String) (isManuallyManaged : Bool)
      (mirrorOf mirrorRoot : Option String)

/-- The row of the `INSERT … ON CONFLICT DO NOTHING`. -/
def DiscoveryCall.row (now : Timestamp) (code : String) : DiscoveryCall → ProblemRow
  | .usage _ => catalogRow now ⟨orphanId code, code, none, false, none, none, none, 1⟩ .orphan
  | .orphan externalId owner manual mirrorOf mirrorRoot =>
      catalogRow now ⟨externalId, code, owner, manual, mirrorOf, mirrorRoot, none, 1⟩ .orphan

inductive DiscoveryPhase where
  /-- The advisory lock of the code is held. -/
  | locked
  | inserted (row : Option ProblemRow)
  /-- The row of the code is locked by the catalog write. -/
  | waiting (externalId : String)
  | owned (row : Option ProblemRow) (owner : String) (state : CatalogState)
  | accounted (row : Option ProblemRow) (owner : String) (state : CatalogState)

structure Discovery where
  now : Timestamp
  call : DiscoveryCall
  phase : DiscoveryPhase

def Discovery.pending (d : Discovery) : Option ProblemRow :=
  match d.phase with
  | .inserted row | .owned row _ _ | .accounted row _ _ => row
  | .locked | .waiting _ => none

def Discovery.owner (d : Discovery) : Option String :=
  match d.phase with
  | .owned _ owner _ | .accounted _ owner _ => some owner
  | .locked | .inserted _ | .waiting _ => none

def Discovery.commits (d : Discovery) : Bool :=
  match d.call, d.phase with
  | .orphan .., .inserted _ | .usage _, .accounted _ _ _ => true
  | _, _ => false

/-! ## Interleavings -/

structure CodeState where
  db : Database
  upsert : UpsertPhase
  /-- The call that holds the advisory lock of the code. -/
  discovery : Option Discovery

inductive CodeAction where
  /-- The next statement of `upsertProblem`. -/
  | upsert
  /-- It fails for a reason of its own. -/
  | abort
  | begin (now : Timestamp) (call : DiscoveryCall)
  /-- The next statement of the data plane. -/
  | discover
  | giveUp

def CodeState.upserting (s : CodeState) (phase : UpsertPhase) : CodeState :=
  { s with upsert := phase }

def CodeState.discovering (s : CodeState) (d : Discovery) (phase : DiscoveryPhase) : CodeState :=
  { s with discovery := some { d with phase := phase } }

/-- The data plane has selected the committed row `FOR UPDATE`. -/
def CodeState.rowLocked (s : CodeState) (externalId : String) : Bool :=
  s.discovery.any fun d => d.pending.isNone && d.owner = some externalId

def CodeState.rowPending (s : CodeState) : Bool := s.discovery.any fun d => d.pending.isSome

def hasId (externalId : String) (problems : List ProblemRow) : Bool :=
  problems.any fun p => p.externalId = externalId

/-- The next statement of `upsertProblem`; an error rolls its transaction back. -/
def upsertNext (now : Timestamp) (e : CatalogEntry) (s : CodeState) : Option CodeState :=
  match s.upsert with
  | .called =>
      if s.discovery.isSome ∧ e.code ∈ upsertKeys e then none else some (s.upserting .locked)
  | .locked =>
      match s.db.problems.find? fun p => p.code = e.code with
      | none => some (s.upserting (.settled .free))
      | some p =>
          if s.rowLocked p.externalId then
            none
          else if p.externalId = e.externalId then
            some (s.upserting (.settled .own))
          else if p.catalogState ≠ .orphan ∨ p.externalId ≠ orphanId e.code then
            some (s.upserting (.returned (.error (.codeConflict e.code p.externalId))))
          else
            some (s.upserting .orphanHeld)
  | .orphanHeld =>
      if s.rowLocked e.externalId then
        none
      else
        some (s.upserting (if hasId e.externalId s.db.problems then .targetHeld else .vacant))
  | .targetHeld =>
      some (s.upserting
        (if hasHistory (orphanId e.code) s.db then .returned (.error (.orphanHistoryConflict e.code))
          else .mergeable))
  | .mergeable => some (s.upserting .usageMerged)
  | .usageMerged =>
      some (s.upserting
        (if referenced (orphanId e.code) s.db then .returned (.error .stillReferenced)
          else .settled .merge))
  | .vacant =>
      if s.rowPending then
        none
      else
        some (s.upserting
          (if hasId e.externalId s.db.problems then .returned (.error .duplicateKey)
            else .settled .rekey))
  | .settled how =>
      if s.rowPending ∨ s.rowLocked e.externalId then
        none
      else
        some (s.upserting
          (if codeTaken e (settledDb e how s.db).problems then .returned (.error .duplicateKey)
            else .written how))
  | .written how => some { s with db := writtenDb now e how s.db, upsert := .returned (.ok how) }
  | .returned _ | .aborted => none

/-- The version of a row that a statement finds once it no longer has to wait for it. -/
def CodeState.newVersion (s : CodeState) (e : CatalogEntry) (externalId : String) :
    Option ProblemRow :=
  let current :=
    if s.upsert = .returned (.ok .rekey) ∧ externalId = orphanId e.code then e.externalId
    else externalId
  s.db.problems.find? fun p => p.externalId = current && p.code = e.code

/-- `fetch_one` of the row of the code; without one the transaction is rolled back. -/
def CodeState.ownedBy (s : CodeState) (d : Discovery) : Option ProblemRow → CodeState
  | none => { s with discovery := none }
  | some p => s.discovering d (.owned none p.externalId p.catalogState)

def CodeState.commitDiscovery (s : CodeState) (row : Option ProblemRow)
    (usage : List ProblemUsageRow) : CodeState :=
  { s with
    db := { s.db with problems := s.db.problems ++ row.toList, problemUsage := usage }
    discovery := none }

def discoverNext (e : CatalogEntry) (s : CodeState) (d : Discovery) : Option CodeState :=
  match d.call, d.phase with
  | call, .locked =>
      if s.upsert.writes then
        none
      else
        let row := call.row d.now e.code
        some (s.discovering d (.inserted
          (if s.db.problems.any fun p => p.externalId = row.externalId || p.code = row.code then none
            else some row)))
  | .orphan .., .inserted row => some (s.commitDiscovery row s.db.problemUsage)
  | .usage _, .inserted (some row) =>
      some (s.discovering d (.owned (some row) row.externalId row.catalogState))
  | .usage _, .inserted none =>
      match s.db.problems.find? fun p => p.code = e.code with
      | some p =>
          if p.externalId ∈ s.upsert.locks e then
            some (s.discovering d (.waiting p.externalId))
          else
            some (s.ownedBy d (some p))
      | none => some (s.ownedBy d none)
  | .usage _, .waiting externalId =>
      if s.upsert.ended then some (s.ownedBy d (s.newVersion e externalId)) else none
  | .usage _, .owned row owner state => some (s.discovering d (.accounted row owner state))
  | .usage scan, .accounted row owner state =>
      some (s.commitDiscovery row (DataPlane.upsertProblemUsage d.now owner scan
        (if state = .orphan then .orphan else .present) s.db.problemUsage))
  | .orphan .., _ => none

def codeStep (now : Timestamp) (e : CatalogEntry) (s : CodeState) : CodeAction → Option CodeState
  | .upsert => upsertNext now e s
  | .abort => if s.upsert.ended then none else some (s.upserting .aborted)
  | .begin now call =>
      if s.discovery.isSome ∨
          (s.upsert ≠ .called ∧ s.upsert.ended = false ∧ e.code ∈ upsertKeys e) then
        none
      else
        some { s with discovery := some ⟨now, call, .locked⟩ }
  | .discover => s.discovery.bind fun d => discoverNext e s d
  | .giveUp => s.discovery.map fun _ => { s with discovery := none }

/-! ## Statements -/

/-- Nothing has been started. -/
structure Untouched (s : CodeState) : Prop where
  upsert : s.upsert = .called
  discovery : s.discovery = none
  unique : UniqueProblems s.db.problems
  usage : ∀ u ∈ s.db.problemUsage, Stored u.problemId s.db.problems

structure CodeSettled (e : CatalogEntry) (before after : Database) : Prop where
  owner : ∃ p, (after.problems.filter fun p => p.code = e.code) = [p] ∧
    p.externalId = e.externalId
  usage : ∀ u ∈ after.problemUsage, u.problemId = e.externalId ∨ u ∈ before.problemUsage

/-- No unique key has turned the catalog write down, and once both sides are through the
problem has the code. -/
def Serialised (e : CatalogEntry) (before : Database) (s : CodeState) : Prop :=
  s.upsert ≠ .returned (.error .duplicateKey) ∧
    ∀ how, s.upsert = .returned (.ok how) → s.discovery = none → CodeSettled e before s.db

/-- An orphan is committed after the catalog write has found the code free, and before it has
written its own row. -/
def Intrudes (e : CatalogEntry) (s : CodeState) : CodeAction → Prop
  | .discover => s.upsert = .settled .free ∧ ∃ d ∈ s.discovery, d.commits = true ∧
      ∃ row ∈ d.pending, row.externalId ≠ e.externalId
  | _ => False

/-! ## What each side relies on -/

structure OrphanOf (e : CatalogEntry) (db : Database) : Prop where
  holds : OrphanHolds e.code db.problems
  other : orphanId e.code ≠ e.externalId

def Settles (e : CatalogEntry) (how : Settlement) (db : Database) : Prop :=
  match how with
  | .free => ∀ p ∈ db.problems, p.code = e.code → p.externalId = e.externalId
  | .own => (∀ p ∈ db.problems, p.code = e.code → p.externalId = e.externalId) ∧
      ∃ p ∈ db.problems, p.code = e.code
  | .merge => OrphanOf e db ∧ Stored e.externalId db.problems ∧
      hasHistory (orphanId e.code) db = false ∧ referenced (orphanId e.code) db = false
  | .rekey => OrphanOf e db ∧ ¬ Stored e.externalId db.problems

def UpsertOk (e : CatalogEntry) (db : Database) : UpsertPhase → Prop
  | .called | .locked | .aborted => True
  | .orphanHeld => OrphanOf e db
  | .targetHeld => OrphanOf e db ∧ Stored e.externalId db.problems
  | .mergeable | .usageMerged => OrphanOf e db ∧ Stored e.externalId db.problems ∧
      hasHistory (orphanId e.code) db = false
  | .vacant => Settles e .rekey db
  | .settled how | .written how => Settles e how db
  | .returned (.ok _) => ∃ p ∈ db.problems, p.code = e.code ∧ p.externalId = e.externalId
  | .returned (.error err) => err ≠ .duplicateKey

def UpsertPhase.holdsCode : UpsertPhase → Bool
  | .called | .locked | .settled .free | .returned _ | .aborted => false
  | _ => true

structure DiscoveryOk (e : CatalogEntry) (s : CodeState) (d : Discovery) : Prop where
  pending : ∀ row ∈ d.pending, row.code = e.code ∧
    ∀ p ∈ s.db.problems, p.externalId ≠ row.externalId ∧ p.code ≠ e.code
  owner : ∀ owner ∈ d.owner, ∃ p ∈ s.db.problems ++ d.pending.toList,
    p.externalId = owner ∧ p.code = e.code
  apart : s.upsert.holdsCode = true → d.pending = none ∧ d.owner = none

structure CodeInv (e : CatalogEntry) (before : Database) (s : CodeState) : Prop where
  unique : UniqueProblems s.db.problems
  usage : ∀ u ∈ s.db.problemUsage, Stored u.problemId s.db.problems
  attached : ∀ u ∈ s.db.problemUsage, u ∈ before.problemUsage ∨
    ∃ p ∈ s.db.problems, p.externalId = u.problemId ∧ p.code = e.code
  upsert : UpsertOk e s.db s.upsert
  discovery : ∀ d ∈ s.discovery, DiscoveryOk e s d

section Statements

variable {now : Timestamp} {e : CatalogEntry} {before : Database} {s s' : CodeState}

/-- The catalog write settles the code as it would if nothing ran beside it. -/
theorem Settles.resolveCode {how : Settlement} {db : Database} (hunique : UniqueProblems db.problems)
    (h : Settles e how db) : resolveCode e db = .ok (settledDb e how db) := by
  cases how with
  | free => exact resolveCode_free h
  | own => exact resolveCode_free h.1
  | merge =>
      obtain ⟨⟨⟨orphan, hmem, horphan⟩, hother⟩, hstored, hhistory, hfree⟩ := h
      have hid : orphan.externalId = orphanId e.code := (isOrphanOf_eq_true.mp horphan).2.1
      rw [resolveCode_merge hunique hmem horphan (hid ▸ hother) hstored, hhistory, hfree]
      rfl
  | rekey =>
      obtain ⟨⟨⟨orphan, hmem, horphan⟩, -⟩, hfresh⟩ := h
      exact resolveCode_rekey hunique hmem horphan hfresh

theorem Settles.upsertProblem {how : Settlement} {db : Database}
    (hunique : UniqueProblems db.problems) (h : Settles e how db) :
    upsertProblem now e db = .ok (writtenDb now e how db) := by
  have hresolved := h.resolveCode hunique
  have hown := (resolved_of_resolveCode hunique hresolved).own
  exact upsertProblem_eq_ok.mpr ⟨_, hresolved, codeTaken_eq_false.mpr hown, rfl⟩

/-! ## The statements of `upsertProblem` -/

theorem CodeInv.upserting {phase : UpsertPhase} (h : CodeInv e before s)
    (hok : UpsertOk e s.db phase)
    (hapart : phase.holdsCode = true → ∀ d ∈ s.discovery, d.pending = none ∧ d.owner = none) :
    CodeInv e before (s.upserting phase) := by
  refine ⟨h.unique, h.usage, h.attached, hok, ?_⟩
  intro d hd
  have hdiscovery := h.discovery d hd
  exact ⟨hdiscovery.pending, hdiscovery.owner, fun hholds => hapart hholds d hd⟩

theorem CodeInv.holding {phase : UpsertPhase} (h : CodeInv e before s)
    (hholds : s.upsert.holdsCode = true) (hok : UpsertOk e s.db phase) :
    CodeInv e before (s.upserting phase) :=
  h.upserting hok fun _ d hd => (h.discovery d hd).apart hholds

theorem rowLocked_of_owner {d : Discovery} (hd : d ∈ s.discovery) (hpending : d.pending = none)
    {owner : String} (howner : owner ∈ d.owner) : s.rowLocked owner = true := by
  refine (Option.any_eq_true _ _).mpr ⟨d, hd, ?_⟩
  rw [hpending, Option.mem_def.mp howner]
  simp

theorem pending_of_not_rowPending (h : s.rowPending = false) {d : Discovery}
    (hd : d ∈ s.discovery) : d.pending = none := by
  cases hrow : d.pending with
  | none => rfl
  | some row =>
      have hpending : s.rowPending = true :=
        (Option.any_eq_true _ _).mpr ⟨d, hd, by rw [hrow]; rfl⟩
      rw [h] at hpending
      cases hpending

theorem CodeInv.apart_of_unlocked (h : CodeInv e before s) {p : ProblemRow}
    (hp : p ∈ s.db.problems) (hcode : p.code = e.code) (hfree : s.rowLocked p.externalId = false) :
    ∀ d ∈ s.discovery, d.pending = none ∧ d.owner = none := by
  intro d hd
  have hdiscovery := h.discovery d hd
  have hpending : d.pending = none := by
    rw [Option.eq_none_iff_forall_not_mem]
    intro row hrow
    exact ((hdiscovery.pending row hrow).2 p hp).2 hcode
  refine ⟨hpending, ?_⟩
  rw [Option.eq_none_iff_forall_not_mem]
  intro owner howner
  obtain ⟨q, hq, hid, hqcode⟩ := hdiscovery.owner owner howner
  rw [hpending, Option.toList_none, List.append_nil] at hq
  obtain rfl : q = p := h.unique.eq_of_code hq hp (hqcode.trans hcode.symm)
  rw [hid, rowLocked_of_owner hd hpending howner] at hfree
  cases hfree

theorem hasId_eq_false {externalId : String} {problems : List ProblemRow} :
    hasId externalId problems = false ↔ ¬ Stored externalId problems := by
  unfold hasId
  rw [any_eq_stored, decide_eq_false_iff_not]

theorem hasId_eq_true {externalId : String} {problems : List ProblemRow} :
    hasId externalId problems = true ↔ Stored externalId problems := by
  unfold hasId
  rw [any_eq_stored, decide_eq_true_eq]

theorem codeInv_lookup (h : CodeInv e before s) (hphase : s.upsert = .locked)
    (hstep : upsertNext now e s = some s') : CodeInv e before s' := by
  simp only [upsertNext, hphase] at hstep
  split at hstep
  · rename_i hnone
    cases hstep
    refine h.upserting ?_ nofun
    intro p hp hcode
    have hne := List.find?_eq_none.mp hnone p hp
    rw [decide_eq_true_eq] at hne
    exact absurd hcode hne
  · rename_i p hfound
    have hp : p ∈ s.db.problems := List.mem_of_find?_eq_some hfound
    have hcode : p.code = e.code := by simpa using List.find?_some hfound
    split at hstep
    · cases hstep
    · rename_i hfree
      rw [Bool.not_eq_true] at hfree
      have hapart := h.apart_of_unlocked hp hcode hfree
      split at hstep
      · rename_i hid
        cases hstep
        refine h.upserting ⟨?_, p, hp, hcode⟩ fun _ => hapart
        intro q hq hqcode
        rw [h.unique.eq_of_code hq hp (hqcode.trans hcode.symm)]
        exact hid
      · rename_i hother
        split at hstep
        · cases hstep
          exact h.upserting nofun nofun
        · rename_i horphan
          rw [not_or, not_not, not_not] at horphan
          cases hstep
          refine h.upserting ⟨⟨p, hp, isOrphanOf_eq_true.mpr ⟨hcode, horphan.2, horphan.1⟩⟩, ?_⟩
            fun _ => hapart
          exact fun heq => hother (horphan.2.trans heq)

theorem codeInv_write {how : Settlement} (h : CodeInv e before s)
    (hphase : s.upsert = .settled how) (hstep : upsertNext now e s = some s') :
    CodeInv e before s' := by
  have hsettles : Settles e how s.db := by
    have hok := h.upsert
    rw [hphase] at hok
    exact hok
  have hown := (resolved_of_resolveCode h.unique (hsettles.resolveCode h.unique)).own
  simp only [upsertNext, hphase] at hstep
  split at hstep
  · cases hstep
  · rename_i hwait
    rw [not_or, Bool.not_eq_true, Bool.not_eq_true] at hwait
    rw [codeTaken_eq_false.mpr hown] at hstep
    cases hstep
    refine h.upserting hsettles fun _ d hd => ?_
    have hpending : d.pending = none := pending_of_not_rowPending hwait.1 hd
    by_cases hholds : s.upsert.holdsCode = true
    · exact (h.discovery d hd).apart hholds
    · obtain rfl : how = .free := by
        cases how with
        | free => rfl
        | own | merge | rekey =>
            rw [hphase] at hholds
            exact absurd rfl hholds
      refine ⟨hpending, ?_⟩
      rw [Option.eq_none_iff_forall_not_mem]
      intro owner howner
      obtain ⟨q, hq, hid, hqcode⟩ := (h.discovery d hd).owner owner howner
      rw [hpending, Option.toList_none, List.append_nil] at hq
      have hself : owner = e.externalId := hid.symm.trans (hsettles q hq hqcode)
      rw [← hself, rowLocked_of_owner hd hpending howner] at hwait
      cases hwait.2

/-! ## Its commit -/

theorem mem_mergeUsage {orphan problemId : String} {usage : List ProblemUsageRow}
    {u : ProblemUsageRow} (hu : u ∈ mergeUsage orphan problemId usage) :
    u.problemId = problemId ∨ u ∈ usage := by
  unfold mergeUsage at hu
  split at hu
  · exact .inr hu
  · rcases mem_upsertOn.mp hu with ⟨hold, -⟩ | ⟨v, -, hkey, rfl⟩ | ⟨rfl, -⟩
    · exact .inr hold
    · exact .inl hkey
    · exact .inl rfl

theorem usage_writtenDb {how : Settlement} {db : Database} {u : ProblemUsageRow}
    (hu : u ∈ (writtenDb now e how db).problemUsage) :
    u.problemId = e.externalId ∨ u ∈ db.problemUsage ∧
      (how = .merge ∨ how = .rekey → u.problemId ≠ orphanId e.code) := by
  cases how with
  | free => exact .inr ⟨hu, nofun⟩
  | own => exact .inr ⟨hu, nofun⟩
  | merge =>
      obtain ⟨hu, hother⟩ := mem_deleteWhere.mp hu
      refine (mem_mergeUsage hu).imp_right fun hold => ⟨hold, fun _ => ?_⟩
      exact of_decide_eq_false hother
  | rekey =>
      obtain ⟨v, hv, rfl⟩ := List.mem_map.mp hu
      by_cases hid : v.problemId = orphanId e.code
      · exact .inl (if_pos hid)
      · right
        rw [show renamed (orphanId e.code) e.externalId v.problemId = v.problemId from if_neg hid]
        exact ⟨hv, fun _ => hid⟩

theorem Settles.codeRow {how : Settlement} {db : Database} (hunique : UniqueProblems db.problems)
    (h : Settles e how db) {p : ProblemRow} (hp : p ∈ db.problems) (hcode : p.code = e.code) :
    p.externalId = e.externalId ∨
      (how = .merge ∨ how = .rekey) ∧ p.externalId = orphanId e.code := by
  have horphan : OrphanOf e db → p.externalId = orphanId e.code := by
    rintro ⟨⟨orphan, hmem, horphan⟩, -⟩
    obtain ⟨horphanCode, hid, -⟩ := isOrphanOf_eq_true.mp horphan
    rw [hunique.eq_of_code hp hmem (hcode.trans horphanCode.symm)]
    exact hid
  cases how with
  | free => exact .inl (h p hp hcode)
  | own => exact .inl (h.1 p hp hcode)
  | merge => exact .inr ⟨.inl rfl, horphan h.1⟩
  | rekey => exact .inr ⟨.inr rfl, horphan h.1⟩

theorem codeInv_commit {how : Settlement} (h : CodeInv e before s)
    (hphase : s.upsert = .written how) :
    CodeInv e before { s with db := writtenDb now e how s.db, upsert := .returned (.ok how) } := by
  have hsettles : Settles e how s.db := by
    have hok := h.upsert
    rw [hphase] at hok
    exact hok
  have hupserted : Upserted e s.db.problems (writtenDb now e how s.db).problems :=
    upsertProblem_upserted h.unique (hsettles.upsertProblem h.unique)
  obtain ⟨p, hp, hface, -⟩ := hupserted.own
  have hid : p.externalId = e.externalId := congrArg Prod.fst hface
  have hcode : p.code = e.code := congrArg (fun f => f.2.1) hface
  refine ⟨hupserted.unique, ?_, ?_, ⟨p, hp, hcode, hid⟩, ?_⟩
  · intro u hu
    rcases usage_writtenDb hu with hown | ⟨hold, hother⟩
    · exact ⟨p, hp, hid.trans hown.symm⟩
    · obtain ⟨q, hq, hqid⟩ := h.usage u hold
      by_cases hqown : q.externalId = e.externalId
      · exact ⟨p, hp, (hid.trans hqown.symm).trans hqid⟩
      · have hqcode : q.code ≠ e.code := by
          intro hqcode
          obtain ⟨hhow, horphan⟩ := (hsettles.codeRow h.unique hq hqcode).resolve_left hqown
          exact hother hhow (hqid.symm.trans horphan)
        obtain ⟨q', hq', hkept⟩ := hupserted.kept q hq hqown hqcode
        exact ⟨q', hq', (congrArg Prod.fst hkept.face).symm.trans hqid⟩
  · intro u hu
    rcases usage_writtenDb hu with hown | ⟨hold, hother⟩
    · exact .inr ⟨p, hp, hid.trans hown.symm, hcode⟩
    · refine (h.attached u hold).imp_right ?_
      rintro ⟨q, hq, hqid, hqcode⟩
      rcases hsettles.codeRow h.unique hq hqcode with hqown | ⟨hhow, horphan⟩
      · exact ⟨p, hp, (hid.trans hqown.symm).trans hqid, hcode⟩
      · exact absurd (hqid.symm.trans horphan) (hother hhow)
  · intro d hd
    have hholds : s.upsert.holdsCode = true := by
      rw [hphase]
      rfl
    obtain ⟨hpending, howner⟩ := (h.discovery d hd).apart hholds
    have hreturned : (UpsertPhase.returned (.ok how)).holdsCode = false := rfl
    refine ⟨?_, ?_, fun hheld => absurd (hreturned.symm.trans hheld) Bool.false_ne_true⟩
    · intro row hrow
      rw [hpending] at hrow
      cases hrow
    · intro owner hmem
      rw [howner] at hmem
      cases hmem

theorem codeInv_upsertNext (h : CodeInv e before s) (hstep : upsertNext now e s = some s') :
    CodeInv e before s' := by
  have hok := h.upsert
  cases hphase : s.upsert with
  | called =>
      simp only [upsertNext, hphase] at hstep
      split at hstep
      · cases hstep
      · cases hstep
        exact h.upserting trivial nofun
  | locked => exact codeInv_lookup h hphase hstep
  | orphanHeld =>
      rw [hphase] at hok
      have hholds : s.upsert.holdsCode = true := by
        rw [hphase]
        rfl
      simp only [upsertNext, hphase] at hstep
      split at hstep
      · cases hstep
      · cases hstep
        refine h.holding hholds ?_
        cases hstored : hasId e.externalId s.db.problems with
        | true => exact ⟨hok, hasId_eq_true.mp hstored⟩
        | false => exact ⟨hok, hasId_eq_false.mp hstored⟩
  | targetHeld =>
      rw [hphase] at hok
      have hholds : s.upsert.holdsCode = true := by
        rw [hphase]
        rfl
      simp only [upsertNext, hphase] at hstep
      cases hstep
      refine h.holding hholds ?_
      cases hhistory : hasHistory (orphanId e.code) s.db with
      | true => exact CatalogError.noConfusion
      | false => exact ⟨hok.1, hok.2, hhistory⟩
  | mergeable =>
      rw [hphase] at hok
      have hholds : s.upsert.holdsCode = true := by
        rw [hphase]
        rfl
      simp only [upsertNext, hphase] at hstep
      cases hstep
      exact h.holding hholds hok
  | usageMerged =>
      rw [hphase] at hok
      have hholds : s.upsert.holdsCode = true := by
        rw [hphase]
        rfl
      simp only [upsertNext, hphase] at hstep
      cases hstep
      refine h.holding hholds ?_
      cases hreferenced : referenced (orphanId e.code) s.db with
      | true => exact CatalogError.noConfusion
      | false => exact ⟨hok.1, hok.2.1, hok.2.2, hreferenced⟩
  | vacant =>
      rw [hphase] at hok
      have hholds : s.upsert.holdsCode = true := by
        rw [hphase]
        rfl
      simp only [upsertNext, hphase] at hstep
      split at hstep
      · cases hstep
      · rw [hasId_eq_false.mpr hok.2] at hstep
        cases hstep
        exact h.holding hholds hok
  | settled how => exact codeInv_write h hphase hstep
  | written how =>
      simp only [upsertNext, hphase] at hstep
      cases hstep
      exact codeInv_commit h hphase
  | returned _ | aborted =>
      simp only [upsertNext, hphase] at hstep
      cases hstep

/-! ## The statements of the data plane -/

theorem CodeInv.alone (h : CodeInv e before s) : CodeInv e before { s with discovery := none } :=
  ⟨h.unique, h.usage, h.attached, h.upsert, fun d hd => absurd hd (Option.not_mem_none d)⟩

theorem CodeInv.discovering {d : Discovery} (h : CodeInv e before s) (hok : DiscoveryOk e s d) :
    CodeInv e before { s with discovery := some d } := by
  refine ⟨h.unique, h.usage, h.attached, h.upsert, ?_⟩
  intro d' hd'
  obtain rfl := Option.some.inj hd'
  exact ⟨hok.pending, hok.owner, hok.apart⟩

theorem discoveryOk_of_none {d : Discovery} (hpending : d.pending = none) (howner : d.owner = none) :
    DiscoveryOk e s d := by
  refine ⟨?_, ?_, fun _ => ⟨hpending, howner⟩⟩
  · intro row hrow
    rw [hpending] at hrow
    cases hrow
  · intro owner hmem
    rw [howner] at hmem
    cases hmem

theorem row_code (call : DiscoveryCall) (at' : Timestamp) : (call.row at' e.code).code = e.code := by
  cases call <;> rfl

/-- Where the code is held without a write, its row is committed. -/
theorem UpsertOk.codeStored {db : Database} {phase : UpsertPhase} (h : UpsertOk e db phase)
    (hholds : phase.holdsCode = true) (hwrites : phase.writes = false) :
    ∃ p ∈ db.problems, p.code = e.code := by
  have horphan : OrphanOf e db → ∃ p ∈ db.problems, p.code = e.code := by
    rintro ⟨⟨orphan, hmem, horphan⟩, -⟩
    exact ⟨orphan, hmem, (isOrphanOf_eq_true.mp horphan).1⟩
  cases phase with
  | orphanHeld => exact horphan h
  | targetHeld => exact horphan h.1
  | mergeable | usageMerged | vacant => exact horphan h.1
  | settled how =>
      cases how with
      | own => exact h.2
      | free => cases hholds
      | merge | rekey => cases hwrites
  | written _ => cases hwrites
  | called | locked | returned _ | aborted => cases hholds

theorem codeInv_insert {d : Discovery} (h : CodeInv e before s) (hwrites : s.upsert.writes = false) :
    CodeInv e before (s.discovering d (.inserted
      (if s.db.problems.any fun p => p.externalId = (d.call.row d.now e.code).externalId ||
          p.code = (d.call.row d.now e.code).code then none
        else some (d.call.row d.now e.code)))) := by
  split
  · exact h.discovering (discoveryOk_of_none rfl rfl)
  · rename_i hfree
    have hnew : ∀ p ∈ s.db.problems, p.externalId ≠ (d.call.row d.now e.code).externalId ∧
        p.code ≠ e.code := by
      intro p hp
      rw [Bool.not_eq_true, List.any_eq_false] at hfree
      have hp' := hfree p hp
      rw [row_code, Bool.or_eq_true, decide_eq_true_eq, decide_eq_true_eq, not_or] at hp'
      exact hp'
    refine h.discovering ⟨?_, fun owner howner => absurd howner (Option.not_mem_none owner), ?_⟩
    · intro row hrow
      obtain rfl := Option.some.inj hrow
      exact ⟨row_code _ _, hnew⟩
    · intro hholds
      obtain ⟨p, hp, hcode⟩ := h.upsert.codeStored hholds hwrites
      exact absurd hcode (hnew p hp).2

theorem codeInv_owned {d : Discovery} (h : CodeInv e before s) {p : ProblemRow}
    (hp : p ∈ s.db.problems) (hcode : p.code = e.code) (hfree : s.upsert.holdsCode = false) :
    CodeInv e before (s.ownedBy d (some p)) := by
  refine h.discovering ⟨fun row hrow => absurd hrow (Option.not_mem_none row), ?_, ?_⟩
  · intro owner howner
    obtain rfl := Option.some.inj howner
    exact ⟨p, List.mem_append_left _ hp, rfl, hcode⟩
  · intro hholds
    rw [hfree] at hholds
    cases hholds

theorem UpsertOk.congr {db db' : Database} {phase : UpsertPhase} (h : UpsertOk e db phase)
    (hproblems : db'.problems = db.problems) (hsnapshots : db'.snapshots = db.snapshots)
    (hjobs : db'.jobs = db.jobs) (hkeys : db'.idempotencyKeys = db.idempotencyKeys) :
    UpsertOk e db' phase := by
  have horphan : OrphanOf e db → OrphanOf e db' := by
    rintro ⟨hholds, hother⟩
    exact ⟨hproblems ▸ hholds, hother⟩
  have hhistory : hasHistory (orphanId e.code) db' = hasHistory (orphanId e.code) db := by
    unfold hasHistory
    rw [hsnapshots, hjobs]
  have hreferenced : referenced (orphanId e.code) db' = referenced (orphanId e.code) db := by
    unfold referenced
    rw [hproblems, hkeys]
  have hsettles : ∀ how, Settles e how db → Settles e how db' := by
    intro how hhow
    cases how with
    | free =>
        intro p hp
        rw [hproblems] at hp
        exact hhow p hp
    | own => exact ⟨hproblems ▸ hhow.1, hproblems ▸ hhow.2⟩
    | merge =>
        exact ⟨horphan hhow.1, hproblems ▸ hhow.2.1, hhistory.trans hhow.2.2.1,
          hreferenced.trans hhow.2.2.2⟩
    | rekey => exact ⟨horphan hhow.1, hproblems ▸ hhow.2⟩
  cases phase with
  | called | locked | aborted => trivial
  | orphanHeld => exact horphan h
  | targetHeld => exact ⟨horphan h.1, hproblems ▸ h.2⟩
  | mergeable | usageMerged => exact ⟨horphan h.1, hproblems ▸ h.2.1, hhistory.trans h.2.2⟩
  | vacant => exact hsettles .rekey h
  | settled how | written how => exact hsettles how h
  | returned result =>
      cases result with
      | error err => exact h
      | ok how =>
          obtain ⟨p, hp, hrow⟩ := h
          exact ⟨p, hproblems ▸ hp, hrow⟩

theorem UniqueProblems.append {problems : List ProblemRow} (h : UniqueProblems problems)
    {row : ProblemRow} (hnew : ∀ p ∈ problems, p.externalId ≠ row.externalId ∧ p.code ≠ row.code) :
    UniqueProblems (problems ++ [row]) := by
  constructor
  · exact nodup_map_concat h.ids fun p hp => (hnew p hp).1
  · exact nodup_map_concat h.codes fun p hp => (hnew p hp).2

def UsageWritten (e : CatalogEntry) (db : Database) (problems : List ProblemRow)
    (usage : List ProblemUsageRow) : Prop :=
  ∀ u ∈ usage, u ∈ db.problemUsage ∨ ∃ p ∈ problems, p.externalId = u.problemId ∧ p.code = e.code

theorem usageWritten_of_owner {db : Database} {problems : List ProblemRow} {at' : Timestamp}
    {owner : String} {scan : ScanResult} {status : LocalStatus}
    (howner : ∃ p ∈ problems, p.externalId = owner ∧ p.code = e.code) :
    UsageWritten e db problems
      (DataPlane.upsertProblemUsage at' owner scan status db.problemUsage) := by
  intro u hu
  obtain ⟨p, hp, hid, hcode⟩ := howner
  rcases mem_upsertOn.mp hu with ⟨hold, -⟩ | ⟨v, -, hkey, rfl⟩ | ⟨rfl, -⟩
  · exact .inl hold
  · right
    rw [DataPlane.scannedUsage_problemId]
    rw [DataPlane.scannedUsage_problemId] at hkey
    exact ⟨p, hp, hid.trans hkey.symm, hcode⟩
  · right
    rw [DataPlane.scannedUsage_problemId]
    exact ⟨p, hp, hid, hcode⟩

theorem codeInv_commitDiscovery {d : Discovery} {usage : List ProblemUsageRow}
    (h : CodeInv e before s) (hd : d ∈ s.discovery)
    (husage : UsageWritten e s.db (s.db.problems ++ d.pending.toList) usage)
    (hkept : s.upsert = .settled .free → ∀ row ∈ d.pending, row.externalId = e.externalId) :
    CodeInv e before (s.commitDiscovery d.pending usage) := by
  have hok := h.discovery d hd
  refine ⟨?_, ?_, ?_, ?_, fun d' hd' => absurd hd' (Option.not_mem_none d')⟩
  · change UniqueProblems (s.db.problems ++ d.pending.toList)
    cases hrow : d.pending with
    | none =>
        rw [Option.toList_none, List.append_nil]
        exact h.unique
    | some row =>
        obtain ⟨hcode, hnew⟩ := hok.pending row hrow
        exact h.unique.append fun p hp => ⟨(hnew p hp).1, hcode ▸ (hnew p hp).2⟩
  · intro u hu
    rcases husage u hu with hold | ⟨p, hp, hid, -⟩
    · obtain ⟨p, hp, hid⟩ := h.usage u hold
      exact ⟨p, List.mem_append_left _ hp, hid⟩
    · exact ⟨p, hp, hid⟩
  · intro u hu
    rcases husage u hu with hold | hnew
    · refine (h.attached u hold).imp_right ?_
      rintro ⟨p, hp, hrow⟩
      exact ⟨p, List.mem_append_left _ hp, hrow⟩
    · exact .inr hnew
  · change UpsertOk e { s.db with
      problems := s.db.problems ++ d.pending.toList, problemUsage := usage } s.upsert
    by_cases hholds : s.upsert.holdsCode = true
    · refine h.upsert.congr ?_ rfl rfl rfl
      dsimp only
      rw [(hok.apart hholds).1, Option.toList_none, List.append_nil]
    · have hupsert := h.upsert
      cases hphase : s.upsert with
      | called | locked | aborted => trivial
      | returned result =>
          rw [hphase] at hupsert
          cases result with
          | error err => exact hupsert
          | ok how =>
              obtain ⟨p, hp, hrow⟩ := hupsert
              exact ⟨p, List.mem_append_left _ hp, hrow⟩
      | settled how =>
          rw [hphase] at hupsert hholds
          cases how with
          | free =>
              intro p hp hcode
              rcases List.mem_append.mp hp with hp | hp
              · exact hupsert p hp hcode
              · exact hkept hphase p (Option.mem_toList.mp hp)
          | own | merge | rekey => exact absurd rfl hholds
      | orphanHeld | targetHeld | mergeable | usageMerged | vacant | written _ =>
          rw [hphase] at hholds
          exact absurd rfl hholds

theorem CodeInv.locked (h : CodeInv e before s) (hholds : s.upsert.holdsCode = true)
    {p : ProblemRow} (hp : p ∈ s.db.problems) (hcode : p.code = e.code) :
    p.externalId ∈ s.upsert.locks e := by
  have horphan : OrphanOf e s.db → p.externalId = orphanId e.code := by
    rintro ⟨⟨orphan, hmem, horphan⟩, -⟩
    obtain ⟨horphanCode, hid, -⟩ := isOrphanOf_eq_true.mp horphan
    rw [h.unique.eq_of_code hp hmem (hcode.trans horphanCode.symm)]
    exact hid
  have hok := h.upsert
  cases hphase : s.upsert with
  | orphanHeld =>
      rw [hphase] at hok
      exact List.mem_singleton.mpr (horphan hok)
  | targetHeld | mergeable | usageMerged =>
      rw [hphase] at hok
      exact List.mem_cons.mpr (.inl (horphan hok.1))
  | vacant =>
      rw [hphase] at hok
      exact List.mem_singleton.mpr (horphan hok.1)
  | settled how =>
      rw [hphase] at hok hholds
      cases how with
      | free => cases hholds
      | own => exact List.mem_singleton.mpr (hok.1 p hp hcode)
      | merge => exact List.mem_cons.mpr (.inl (horphan hok.1))
      | rekey => exact List.mem_singleton.mpr (horphan hok.1)
  | written how =>
      rw [hphase] at hok
      cases how with
      | free => exact List.mem_singleton.mpr (hok p hp hcode)
      | own => exact List.mem_singleton.mpr (hok.1 p hp hcode)
      | merge | rekey => exact List.mem_cons.mpr (.inl (horphan hok.1))
  | called | locked | returned _ | aborted =>
      rw [hphase] at hholds
      cases hholds

theorem holdsCode_of_ended {phase : UpsertPhase} (h : phase.ended = true) :
    phase.holdsCode = false := by
  cases phase with
  | returned _ | aborted => rfl
  | _ => cases h

theorem codeInv_discoverNext {d : Discovery} (h : CodeInv e before s) (hd : d ∈ s.discovery)
    (hstep : discoverNext e s d = some s') (hkept : ¬ Intrudes e s .discover) :
    CodeInv e before s' := by
  have hok := h.discovery d hd
  have hquiet : d.commits = true → s.upsert = .settled .free →
      ∀ row ∈ d.pending, row.externalId = e.externalId := by
    intro hcommits hfree row hrow
    by_contra hother
    exact hkept ⟨hfree, d, hd, hcommits, row, hrow, hother⟩
  unfold discoverNext at hstep
  split at hstep
  · split at hstep
    · cases hstep
    · rename_i hwrites
      rw [Bool.not_eq_true] at hwrites
      cases hstep
      exact codeInv_insert h hwrites
  · rename_i row hcall hphase
    have hpending : row = d.pending := by rw [Discovery.pending, hphase]
    have hcommits : d.commits = true := by rw [Discovery.commits, hcall, hphase]
    cases hstep
    rw [hpending]
    exact codeInv_commitDiscovery h hd (fun u hu => .inl hu) (hquiet hcommits)
  · rename_i row hcall hphase
    have hpending : d.pending = some row := by rw [Discovery.pending, hphase]
    cases hstep
    refine h.discovering ⟨?_, ?_, ?_⟩
    · exact hpending ▸ hok.pending
    · intro owner howner
      obtain rfl := Option.some.inj howner
      exact ⟨row, List.mem_append_right _ List.mem_cons_self, rfl, (hok.pending row hpending).1⟩
    · intro hholds
      have hnone := (hok.apart hholds).1
      rw [hpending] at hnone
      cases hnone
  · split at hstep
    · rename_i p hfound
      have hp : p ∈ s.db.problems := List.mem_of_find?_eq_some hfound
      have hcode : p.code = e.code := by simpa using List.find?_some hfound
      split at hstep
      · cases hstep
        exact h.discovering (discoveryOk_of_none rfl rfl)
      · rename_i hunlocked
        cases hstep
        refine codeInv_owned h hp hcode ?_
        rw [← Bool.not_eq_true]
        exact fun hholds => hunlocked (h.locked hholds hp hcode)
    · cases hstep
      exact h.alone
  · split at hstep
    · rename_i hended
      cases hstep
      cases hversion : s.newVersion e _ with
      | none => exact h.alone
      | some p =>
          have hp : p ∈ s.db.problems := List.mem_of_find?_eq_some hversion
          have hmatches := List.find?_some hversion
          rw [Bool.and_eq_true, decide_eq_true_eq, decide_eq_true_eq] at hmatches
          exact codeInv_owned h hp hmatches.2 (holdsCode_of_ended hended)
    · cases hstep
  · rename_i row owner state hcall hphase
    have hpending : d.pending = row := by rw [Discovery.pending, hphase]
    have howner : d.owner = some owner := by rw [Discovery.owner, hphase]
    cases hstep
    obtain ⟨hnew, hexists, hapart⟩ := hok
    rw [hpending] at hnew hapart
    rw [hpending, howner] at hexists
    rw [howner] at hapart
    exact h.discovering ⟨hnew, hexists, hapart⟩
  · rename_i scan row owner state hcall hphase
    have hpending : row = d.pending := by rw [Discovery.pending, hphase]
    have howner : d.owner = some owner := by rw [Discovery.owner, hphase]
    have hcommits : d.commits = true := by rw [Discovery.commits, hcall, hphase]
    cases hstep
    rw [hpending]
    exact codeInv_commitDiscovery h hd (usageWritten_of_owner (hok.owner owner howner))
      (hquiet hcommits)
  · cases hstep

/-! ## The run -/

theorem codeInv_step {a : CodeAction} (h : CodeInv e before s)
    (hstep : codeStep now e s a = some s') (hkept : ¬ Intrudes e s a) : CodeInv e before s' := by
  cases a with
  | upsert => exact codeInv_upsertNext h hstep
  | abort =>
      simp only [codeStep] at hstep
      split at hstep
      · cases hstep
      · cases hstep
        exact h.upserting trivial fun hholds => absurd hholds Bool.false_ne_true
  | begin at' call =>
      simp only [codeStep] at hstep
      split at hstep
      · cases hstep
      · cases hstep
        have hbegun : DiscoveryOk e s ⟨at', call, .locked⟩ := discoveryOk_of_none rfl rfl
        exact h.discovering hbegun
  | discover =>
      obtain ⟨d, hd, hnext⟩ := Option.bind_eq_some_iff.mp hstep
      exact codeInv_discoverNext h hd hnext hkept
  | giveUp =>
      obtain ⟨d, -, rfl⟩ := Option.map_eq_some_iff.mp hstep
      exact h.alone

def Doomed (e : CatalogEntry) (s : CodeState) : Prop :=
  (s.upsert = .settled .free ∧ ∃ p ∈ s.db.problems, p.code = e.code ∧
      p.externalId ≠ e.externalId) ∨
    s.upsert = .returned (.error .duplicateKey) ∨ s.upsert = .aborted

theorem commitDiscovery_of_commits {d : Discovery} (hcommits : d.commits = true)
    (hstep : discoverNext e s d = some s') : ∃ usage, s' = s.commitDiscovery d.pending usage := by
  unfold Discovery.commits at hcommits
  split at hcommits
  · rename_i row hcall hphase
    simp only [discoverNext, hcall, hphase] at hstep
    rw [Discovery.pending, hphase]
    exact ⟨_, (Option.some.inj hstep).symm⟩
  · rename_i scan row owner state hcall hphase
    simp only [discoverNext, hcall, hphase] at hstep
    rw [Discovery.pending, hphase]
    exact ⟨_, (Option.some.inj hstep).symm⟩
  · cases hcommits

theorem discoverNext_kept {d : Discovery} (hstep : discoverNext e s d = some s') :
    s'.upsert = s.upsert ∧ ∀ p ∈ s.db.problems, p ∈ s'.db.problems := by
  have hownedBy : ∀ row, (s.ownedBy d row).upsert = s.upsert ∧
      ∀ p ∈ s.db.problems, p ∈ (s.ownedBy d row).db.problems := by
    intro row
    cases row with
    | none => exact ⟨rfl, fun _ hp => hp⟩
    | some p => exact ⟨rfl, fun _ hp => hp⟩
  unfold discoverNext at hstep
  split at hstep
  · split at hstep
    · cases hstep
    · cases hstep
      exact ⟨rfl, fun _ hp => hp⟩
  · cases hstep
    exact ⟨rfl, fun _ hp => List.mem_append_left _ hp⟩
  · cases hstep
    exact ⟨rfl, fun _ hp => hp⟩
  · split at hstep
    · split at hstep
      · cases hstep
        exact ⟨rfl, fun _ hp => hp⟩
      · cases hstep
        exact hownedBy _
    · cases hstep
      exact hownedBy _
  · split at hstep
    · cases hstep
      exact hownedBy _
    · cases hstep
  · cases hstep
    exact ⟨rfl, fun _ hp => hp⟩
  · cases hstep
    exact ⟨rfl, fun _ hp => List.mem_append_left _ hp⟩
  · cases hstep

theorem doomed_of_intrudes {a : CodeAction} (h : CodeInv e before s)
    (hstep : codeStep now e s a = some s') (hintrudes : Intrudes e s a) : Doomed e s' := by
  cases a with
  | discover =>
      obtain ⟨hfree, d, hd, hcommits, row, hrow, hother⟩ := hintrudes
      obtain ⟨d', hd', hnext⟩ := Option.bind_eq_some_iff.mp hstep
      obtain rfl : d' = d := Option.some.inj (hd'.symm.trans hd)
      obtain ⟨usage, rfl⟩ := commitDiscovery_of_commits hcommits hnext
      refine .inl ⟨hfree, row, ?_, ((h.discovery d' hd').pending row hrow).1, hother⟩
      exact List.mem_append_right _ (Option.mem_toList.mpr hrow)
  | upsert | abort | begin _ _ | giveUp => exact hintrudes.elim

theorem doomed_step {a : CodeAction} (h : Doomed e s) (hstep : codeStep now e s a = some s') :
    Doomed e s' := by
  cases a with
  | upsert =>
      rcases h with ⟨hfree, p, hp, hcode, hother⟩ | hended | hended
      · have htaken : codeTaken e s.db.problems = true := by
          rw [← Bool.not_eq_false, codeTaken_eq_false]
          exact fun hown => hother (hown p hp hcode)
        simp only [codeStep, upsertNext, hfree] at hstep
        split at hstep
        · cases hstep
        · rw [show settledDb e .free s.db = s.db from rfl, htaken] at hstep
          cases hstep
          exact .inr (.inl rfl)
      · simp only [codeStep, upsertNext, hended] at hstep
        cases hstep
      · simp only [codeStep, upsertNext, hended] at hstep
        cases hstep
  | abort =>
      simp only [codeStep] at hstep
      split at hstep
      · cases hstep
      · cases hstep
        exact .inr (.inr rfl)
  | begin at' call =>
      simp only [codeStep] at hstep
      split at hstep
      · cases hstep
      · cases hstep
        exact h
  | discover =>
      obtain ⟨d, -, hnext⟩ := Option.bind_eq_some_iff.mp hstep
      obtain ⟨hupsert, hkept⟩ := discoverNext_kept hnext
      unfold Doomed at h ⊢
      rw [hupsert]
      refine h.imp_left fun ⟨hfree, p, hp, hrow⟩ => ⟨hfree, p, hkept p hp, hrow⟩
  | giveUp =>
      obtain ⟨d, -, rfl⟩ := Option.map_eq_some_iff.mp hstep
      exact h

theorem Untouched.codeInv (h : Untouched s) : CodeInv e s.db s := by
  refine ⟨h.unique, h.usage, fun u hu => .inl hu, ?_, ?_⟩
  · rw [h.upsert]
    trivial
  · intro d hd
    rw [h.discovery] at hd
    cases hd

theorem CodeInv.settled {how : Settlement} (h : CodeInv e before s)
    (hreturned : s.upsert = .returned (.ok how)) : CodeSettled e before s.db := by
  have hok := h.upsert
  rw [hreturned] at hok
  obtain ⟨p, hp, hcode, hid⟩ := hok
  have honly : ∀ q ∈ s.db.problems, q.code = e.code → q = p :=
    fun q hq hqcode => h.unique.eq_of_code hq hp (hqcode.trans hcode.symm)
  refine ⟨⟨p, ?_, hid⟩, ?_⟩
  · have hnodup : (s.db.problems.filter fun p => p.code = e.code).Nodup :=
      (h.unique.ids.of_map _).filter _
    refine List.perm_singleton.mp ((List.perm_ext_iff_of_nodup hnodup
      (List.nodup_singleton p)).mpr fun q => ?_)
    rw [List.mem_filter, List.mem_singleton, decide_eq_true_eq]
    constructor
    · exact fun ⟨hq, hqcode⟩ => honly q hq hqcode
    · rintro rfl
      exact ⟨hp, hcode⟩
  · intro u hu
    rcases h.attached u hu with hbefore | ⟨q, hq, hqid, hqcode⟩
    · exact .inr hbefore
    · rw [honly q hq hqcode, hid] at hqid
      exact .inl hqid.symm

/-- Next to any calls of the data plane, a catalog write that returns has been serialised with
them if and only if none of them has committed an orphan of its code between its lookup and its
insert. -/
theorem discovery_serialised {as : List CodeAction} {result : Except CatalogError Settlement}
    (hstart : Untouched s) (hrun : exec (codeStep now e) s as = some s')
    (hreturned : s'.upsert = .returned result) :
    Serialised e s.db s' ↔ EveryStep (codeStep now e) (fun t a _ => ¬ Intrudes e t a) s as := by
  have houtcome := exec_kept_or_lost (I := CodeInv e s.db) (J := Doomed e)
    (C := fun t a _ => ¬ Intrudes e t a) (fun _ _ _ h hstep hkept => codeInv_step h hstep hkept)
    (fun _ _ _ h hstep hlost => doomed_of_intrudes h hstep (not_not.mp hlost))
    (fun _ _ _ h hstep => doomed_step h hstep) hstart.codeInv hrun
  rcases houtcome with ⟨hkept, hinv⟩ | ⟨hlost, hdoomed⟩
  · refine iff_of_true ⟨?_, fun how hok _ => hinv.settled hok⟩ hkept
    intro hduplicate
    have hok := hinv.upsert
    rw [hduplicate] at hok
    exact hok rfl
  · refine iff_of_false ?_ hlost
    rintro ⟨hunique, -⟩
    rcases hdoomed with ⟨hfree, -⟩ | hduplicate | haborted
    · rw [hreturned] at hfree
      cases hfree
    · exact hunique hduplicate
    · rw [hreturned] at haborted
      cases haborted

end Statements

instance (e : CatalogEntry) (s : CodeState) (a : CodeAction) : Decidable (Intrudes e s a) := by
  unfold Intrudes
  split <;> infer_instance

/-! The folder `sums` is found while the catalog lists it as problem 7. -/

def discoveredScan : ScanResult where
  code := "sums"
  files := []
  logicalBytes := 10
  allocatedBytes := 10
  archiveBytes := 0
  auxiliaryBytes := 10
  fileCount := 1

def unlistedCode : CodeState := ⟨{}, .called, none⟩

theorem untouched_unlistedCode : Untouched unlistedCode :=
  ⟨rfl, rfl, ⟨List.nodup_nil, List.nodup_nil⟩, fun _ hu => absurd hu List.not_mem_nil⟩

def discoverSteps (n : Nat) : List CodeAction := List.replicate n .discover

def upsertSteps (n : Nat) : List CodeAction := List.replicate n .upsert

/-- The folder is found, and found again while the orphan is taken over. -/
def takenOver : List CodeAction :=
  .begin 1 (.usage discoveredScan) :: discoverSteps 4 ++ upsertSteps 2 ++
    .begin 2 (.usage discoveredScan) :: discoverSteps 2 ++ upsertSteps 4 ++ discoverSteps 3

theorem discovery_serialised_taken_over :
    ∃ s, exec (codeStep 9 sampleEntry) unlistedCode takenOver = some s ∧
      s.upsert = .returned (.ok .rekey) ∧ s.discovery = none ∧
      Serialised sampleEntry unlistedCode.db s := by
  have hreturned : (exec (codeStep 9 sampleEntry) unlistedCode takenOver).any (fun s =>
      s.upsert = .returned (.ok .rekey) && s.discovery.isNone) = true := by
    decide +kernel
  obtain ⟨s, hrun, hs⟩ := (Option.any_eq_true _ _).mp hreturned
  rw [Bool.and_eq_true, decide_eq_true_eq, Option.isNone_iff_eq_none] at hs
  have hkept : EveryStep (codeStep 9 sampleEntry) (fun t a _ => ¬ Intrudes sampleEntry t a)
      unlistedCode takenOver := by
    decide +kernel
  exact ⟨s, hrun, hs.1, hs.2, (discovery_serialised untouched_unlistedCode hrun hs.1).mpr hkept⟩

def foundInBetween : List CodeAction :=
  upsertSteps 2 ++ .begin 1 (.usage discoveredScan) :: discoverSteps 4 ++ upsertSteps 1

theorem found_in_between_fails :
    Untouched unlistedCode ∧ ∃ s,
      exec (codeStep 9 sampleEntry) unlistedCode foundInBetween = some s ∧
      s.upsert = .returned (.error .duplicateKey) ∧
      s.db.problems.map ProblemRow.externalId = [orphanId "sums"] ∧
      ¬ Serialised sampleEntry unlistedCode.db s := by
  have hreturned : (exec (codeStep 9 sampleEntry) unlistedCode foundInBetween).any (fun s =>
      s.upsert = .returned (.error .duplicateKey) &&
        s.db.problems.map ProblemRow.externalId = [orphanId "sums"]) = true := by
    decide +kernel
  obtain ⟨s, hrun, hs⟩ := (Option.any_eq_true _ _).mp hreturned
  rw [Bool.and_eq_true, decide_eq_true_eq, decide_eq_true_eq] at hs
  exact ⟨untouched_unlistedCode, s, hrun, hs.1, hs.2, fun h => h.1 hs.1⟩

end ExternalStorage.Catalog
