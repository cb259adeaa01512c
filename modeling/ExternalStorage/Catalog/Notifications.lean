import ExternalStorage.Library.Runs
import ExternalStorage.Catalog.Claims
import ExternalStorage.Sync.Statements

/-!
# Dirty notifications

A notification carries an idempotency key, by which it is applied once.  The code of its
body is settled before the key is looked up, so the repetition of a notification fails
while another problem has the code.
-/

namespace ExternalStorage.Catalog

open ExternalStorage.Model Library.Runs Library.Table
open Sync (Write)

/-! ## The machine -/

/-- A request of the route `POST /problems/:externalId/dirty`. -/
structure Notification where
  idempotencyKey : String
  e : CatalogEntry
  deleted : Bool
  deriving DecidableEq, Repr

def Notification.call (now : Timestamp) (actor : String) (n : Notification) (db : Database) :
    Except CatalogError (Database × Bool) :=
  markProblemDirtyIdempotent now n.idempotencyKey actor (stableFingerprint n.e n.deleted) n.e
    n.deleted db

structure Notified where
  db : Database
  /-- The notifications that have mutated their problem: history the program does not keep. -/
  applied : List Notification := []
  /-- The problems whose version the watcher has raised, as often as it has. -/
  watched : List String := []

inductive NoticeAction where
  | notify (now : Timestamp) (actor : String) (n : Notification)
  /-- Any other write whose transaction has begun at `now`. -/
  | write (now : Timestamp) (w : Write)

/-- `markProblemDirty` and the data plane's `upsert_problem` have no caller, and no other
statement writes into `idempotency_keys`. -/
def called (db : Database) : Write → Bool
  | .markProblemDirty _ | .scannedProblem .. | .markProblemDirtyIdempotent .. => false
  | .elsewhere other => other.idempotencyKeys = db.idempotencyKeys
  | _ => true

def watchedBy (db : Database) : Write → Option String
  | .acquireDirtySnapshotJobByCode code .. =>
      (db.problems.find? fun p => p.code = code &&
        (p.catalogState = .present || p.catalogState = .mirror)).map ProblemRow.externalId
  | _ => none

/-- A call that fails is rolled back; the schema turns a write down that would make an id or
a code of `problems` double. -/
def noticeStep (s : Notified) : NoticeAction → Option Notified
  | .notify now actor n =>
      match n.call now actor s.db with
      | .error _ => some s
      | .ok (db, mutated) =>
          some { s with db := db, applied := if mutated then s.applied ++ [n] else s.applied }
  | .write now w =>
      if called s.db w then
        (w.run now s.db).bind fun db =>
          if (db.problems.map ProblemRow.externalId).Nodup ∧ (db.problems.map ProblemRow.code).Nodup
          then some { s with db := db, watched := s.watched ++ (watchedBy s.db w).toList }
          else none
      else
        none

def versionOf (externalId : String) (problems : List ProblemRow) : Int :=
  ((problems.find? fun p => p.externalId = externalId).map ProblemRow.dirtyVersion).getD 0

/-- The upserts that have been applied to a problem, and the watcher's own. -/
def Notified.edits (s : Notified) (externalId : String) : Int :=
  (s.applied.countP fun n => n.e.externalId = externalId && !n.deleted) +
    s.watched.count externalId

/-- No request has used a key, and nobody has edited an orphan. -/
structure Unnotified (db : Database) : Prop where
  unique : UniqueProblems db.problems
  orphans : ∀ p ∈ db.problems, p.catalogState = .orphan → p.dirtyVersion = 0
  unused : db.idempotencyKeys = []

/-- Each key has mutated its problem once, and only its own body is answered under it.  The
repetition of a notification changes nothing where it succeeds, and it succeeds where no
other problem has the code. -/
structure ExactlyOnce (db₀ : Database) (s : Notified) : Prop where
  once : (s.applied.map Notification.idempotencyKey).Nodup
  versions : ∀ externalId, versionOf externalId s.db.problems =
    versionOf externalId db₀.problems + s.edits externalId
  rejects : ∀ n ∈ s.applied, ∀ other : Notification, other.idempotencyKey = n.idempotencyKey →
    other ≠ n → ∀ now actor, (∃ err, other.call now actor s.db = .error err) ∧
      noticeStep s (.notify now actor other) = some s
  replays : ∀ n ∈ s.applied, ∀ now actor,
    n.call now actor s.db = .ok (s.db, false) ↔ codeTaken n.e s.db.problems = false

/-! ## Versions -/

def Settled (externalId : String) (problems : List ProblemRow) : Prop :=
  ∃ p ∈ problems, p.externalId = externalId ∧ p.catalogState ≠ .orphan

/-- `edits` counts the versions; an edited problem is not an orphan. -/
structure Counted (edits : String → Int) (problems : List ProblemRow) : Prop where
  versions : ∀ p ∈ problems, p.dirtyVersion = edits p.externalId
  settled : ∀ externalId, edits externalId ≠ 0 → Settled externalId problems

def KeepsVersion (f : ProblemRow → ProblemRow) : Prop :=
  ∀ p, (f p).externalId = p.externalId ∧ (f p).dirtyVersion = p.dirtyVersion ∧
    ((f p).catalogState = .orphan → p.catalogState = .orphan)

theorem Settled.stored {externalId : String} {problems : List ProblemRow}
    (h : Settled externalId problems) : Stored externalId problems := by
  obtain ⟨p, hp, hid, -⟩ := h
  exact ⟨p, hp, hid⟩

theorem Settled.ne_orphan {externalId : String} {problems : List ProblemRow}
    (hunique : UniqueProblems problems) (h : Settled externalId problems) {orphan : ProblemRow}
    (hmem : orphan ∈ problems) (hstate : orphan.catalogState = .orphan) :
    externalId ≠ orphan.externalId := by
  obtain ⟨p, hp, hid, hsettled⟩ := h
  intro hsame
  rw [hunique.eq_of_id hp hmem (hid.trans hsame)] at hsettled
  exact hsettled hstate

section Counted

variable {edits : String → Int} {problems : List ProblemRow}

theorem Counted.congr {edits' : String → Int} (h : Counted edits problems)
    (heq : ∀ externalId, edits' externalId = edits externalId) : Counted edits' problems := by
  have hsame : edits' = edits := funext heq
  rw [hsame]
  exact h

theorem Counted.eq_zero (h : Counted edits problems) {externalId : String}
    (hunsettled : ¬ Settled externalId problems) : edits externalId = 0 := by
  by_contra hne
  exact hunsettled (h.settled externalId hne)

theorem Counted.versionOf (h : Counted edits problems) (externalId : String) :
    versionOf externalId problems = edits externalId := by
  unfold Catalog.versionOf
  cases hfound : problems.find? fun p => p.externalId = externalId with
  | none =>
      rw [Option.map_none, Option.getD_none, h.eq_zero]
      rintro ⟨p, hp, hid, -⟩
      have hne := List.find?_eq_none.mp hfound p hp
      simp [hid] at hne
  | some p =>
      have hid : p.externalId = externalId := by simpa using List.find?_some hfound
      rw [Option.map_some, Option.getD_some, h.versions p (List.mem_of_find?_eq_some hfound), hid]

theorem Settled.update {externalId : String} (h : Settled externalId problems)
    {f : ProblemRow → ProblemRow} (hf : KeepsVersion f) (q : ProblemRow → Bool) :
    Settled externalId (updateWhere q f problems) := by
  obtain ⟨p, hp, hid, hstate⟩ := h
  refine ⟨_, mem_updateWhere.mpr ⟨p, hp, rfl⟩, ?_⟩
  split
  · exact ⟨(hf p).1.trans hid, fun h => hstate ((hf p).2.2 h)⟩
  · exact ⟨hid, hstate⟩

theorem Counted.update (h : Counted edits problems) {f : ProblemRow → ProblemRow}
    (hf : KeepsVersion f) (q : ProblemRow → Bool) : Counted edits (updateWhere q f problems) := by
  constructor
  · intro p' hp'
    obtain ⟨p, hp, rfl⟩ := mem_updateWhere.mp hp'
    split
    · rw [(hf p).1, (hf p).2.1]
      exact h.versions p hp
    · exact h.versions p hp
  · intro externalId hne
    exact (h.settled externalId hne).update hf q

theorem Counted.upsert (h : Counted edits problems) (new : ProblemRow)
    (merge : ProblemRow → ProblemRow) {raise : Int} (hnew : new.dirtyVersion = raise)
    (hstate : new.catalogState ≠ .orphan)
    (hmerge : ∀ p, (merge p).externalId = p.externalId ∧
      (merge p).dirtyVersion = p.dirtyVersion + raise ∧ (merge p).catalogState ≠ .orphan) :
    Counted (fun externalId => edits externalId + if externalId = new.externalId then raise else 0)
      (upsertOn ProblemRow.externalId new merge problems) := by
  constructor
  · intro p hp
    rcases mem_upsertOn.mp hp with ⟨hp, hother⟩ | ⟨p₀, hp₀, hkey, rfl⟩ | ⟨rfl, hfree⟩
    · rw [if_neg hother, Int.add_zero]
      exact h.versions p hp
    · rw [(hmerge p₀).1, (hmerge p₀).2.1, if_pos hkey, h.versions p₀ hp₀]
    · rw [if_pos rfl, h.eq_zero, hnew, Int.zero_add]
      rintro ⟨p₀, hp₀, hid, -⟩
      exact hfree p₀ hp₀ hid
  · intro externalId hne
    by_cases hid : externalId = new.externalId
    · by_cases hfree : ∀ p ∈ problems, p.externalId ≠ new.externalId
      · exact ⟨new, mem_upsertOn.mpr (.inr (.inr ⟨rfl, hfree⟩)), hid.symm, hstate⟩
      · simp only [not_forall, not_not] at hfree
        obtain ⟨p, hp, hkey⟩ := hfree
        refine ⟨merge p, mem_upsertOn.mpr (.inr (.inl ⟨p, hp, hkey, rfl⟩)), ?_, (hmerge p).2.2⟩
        rw [(hmerge p).1, hkey, hid]
    · rw [if_neg hid, Int.add_zero] at hne
      obtain ⟨p, hp, hpid, hpstate⟩ := h.settled externalId hne
      refine ⟨p, mem_upsertOn.mpr (.inl ⟨hp, ?_⟩), hpid, hpstate⟩
      rw [hpid]
      exact hid

theorem Counted.raise (h : Counted edits problems) {externalId : String}
    (hsettled : Settled externalId problems) {f : ProblemRow → ProblemRow}
    (hf : ∀ p, (f p).externalId = p.externalId ∧ (f p).dirtyVersion = p.dirtyVersion + 1 ∧
      (f p).catalogState = p.catalogState) :
    Counted (fun id => edits id + if id = externalId then 1 else 0)
      (updateWhere (fun p => p.externalId = externalId) f problems) := by
  constructor
  · intro p' hp'
    obtain ⟨p, hp, rfl⟩ := mem_updateWhere.mp hp'
    by_cases hid : p.externalId = externalId
    · simp only [hid, decide_true, if_true, (hf p).1, (hf p).2.1, h.versions p hp]
    · simp only [hid, decide_false, Bool.false_eq_true, if_false, Int.add_zero]
      exact h.versions p hp
  · intro id hne
    have hstored : Settled id problems := by
      by_cases hid : id = externalId
      · rw [hid]
        exact hsettled
      · rw [if_neg hid, Int.add_zero] at hne
        exact h.settled id hne
    obtain ⟨p, hp, hpid, hstate⟩ := hstored
    refine ⟨_, mem_updateWhere.mpr ⟨p, hp, rfl⟩, ?_⟩
    split
    · rw [(hf p).1, (hf p).2.2]
      exact ⟨hpid, hstate⟩
    · exact ⟨hpid, hstate⟩

theorem Counted.append {new : ProblemRow} (h : Counted edits problems)
    (hfree : ∀ p ∈ problems, p.externalId ≠ new.externalId) (hnew : new.dirtyVersion = 0) :
    Counted edits (problems ++ [new]) := by
  constructor
  · intro p hp
    rcases List.mem_append.mp hp with hp | hp
    · exact h.versions p hp
    · rw [List.mem_singleton.mp hp, h.eq_zero, hnew]
      rintro ⟨p₀, hp₀, hid, -⟩
      exact hfree p₀ hp₀ hid
  · intro externalId hne
    obtain ⟨p, hp, hsettled⟩ := h.settled externalId hne
    exact ⟨p, List.mem_append_left _ hp, hsettled⟩

theorem Counted.deleteOrphans (h : Counted edits problems) (externalId : String) :
    Counted edits
      (deleteWhere (fun p => p.externalId = externalId && p.catalogState = .orphan) problems) := by
  constructor
  · intro p hp
    exact h.versions p (mem_deleteWhere.mp hp).1
  · intro id hne
    obtain ⟨p, hp, hid, hstate⟩ := h.settled id hne
    exact ⟨p, mem_deleteWhere.mpr ⟨hp, by simp [hstate]⟩, hid, hstate⟩

end Counted

/-! ## The claim of the code -/

section Claim

variable {edits : String → Int} {e : CatalogEntry} {db claimed : Database}

theorem Counted.rekey (h : Counted edits db.problems) (hunique : UniqueProblems db.problems)
    {orphan : ProblemRow} (hmem : orphan ∈ db.problems)
    (horphan : isOrphanOf e.code orphan = true) (hfresh : ¬ Stored e.externalId db.problems) :
    Counted edits (rekeyProblem (orphanId e.code) e.externalId db).problems := by
  obtain ⟨-, hid, hstate⟩ := isOrphanOf_eq_true.mp horphan
  have hunedited : edits (orphanId e.code) = 0 := by
    apply h.eq_zero
    intro hsettled
    exact hsettled.ne_orphan hunique hmem hstate hid.symm
  constructor
  · intro p' hp'
    obtain ⟨p, hp, rfl⟩ := List.mem_map.mp hp'
    have hversion := h.versions p hp
    by_cases hold : p.externalId = orphanId e.code
    · rw [hold, hunedited] at hversion
      have hnew : edits e.externalId = 0 := h.eq_zero fun hsettled => hfresh hsettled.stored
      simp only [renamed, hold, if_true, hnew, hversion]
    · simp only [renamed_of_ne hold, hversion]
  · intro externalId hne
    obtain ⟨p, hp, hpid, hpstate⟩ := h.settled externalId hne
    refine ⟨_, List.mem_map_of_mem hp, ?_, hpstate⟩
    have hother : p.externalId ≠ orphanId e.code := by
      intro hold
      rw [← hpid, hold, hunedited] at hne
      exact hne rfl
    exact (renamed_of_ne hother).trans hpid

structure Claims (e : CatalogEntry) (db claimed : Database) : Prop where
  resolved : Resolved e db.problems claimed.problems
  counted : ∀ edits, Counted edits db.problems → Counted edits claimed.problems
  settled : ∀ externalId, Settled externalId db.problems → Settled externalId claimed.problems
  keys : (∀ k ∈ db.idempotencyKeys, ∃ externalId, k.responseProblemId = some externalId ∧
    Settled externalId db.problems) → claimed.idempotencyKeys = db.idempotencyKeys
  same : Stored e.externalId db.problems → claimed = db

theorem claims_of_claimCode (hunique : UniqueProblems db.problems)
    (hclaim : claimCode e db = .ok claimed) : Claims e db claimed := by
  cases finds e db.problems with
  | free hown =>
      rw [claimCode_free hown] at hclaim
      cases hclaim
      exact ⟨resolved_free hunique hown, fun _ h => h, fun _ h => h, fun _ => rfl, fun _ => rfl⟩
  | merge orphan hmem horphan hother hstored =>
      rw [claimCode_merge hunique hmem horphan hother hstored] at hclaim
      cases hclaim
  | rekey orphan hmem horphan hfresh =>
      rw [claimCode_rekey hunique hmem horphan hfresh] at hclaim
      cases hclaim
      obtain ⟨-, hid, hstate⟩ := isOrphanOf_eq_true.mp horphan
      have hne : ∀ externalId, Settled externalId db.problems → externalId ≠ orphanId e.code := by
        intro externalId hsettled
        rw [← hid]
        exact hsettled.ne_orphan hunique hmem hstate
      refine ⟨resolved_rekey hunique hmem horphan hfresh,
        fun edits h => h.rekey hunique hmem horphan hfresh, ?_, ?_, fun h => absurd h hfresh⟩
      · intro externalId hsettled
        have hother := hne externalId hsettled
        obtain ⟨p, hp, hpid, hpstate⟩ := hsettled
        refine ⟨_, List.mem_map_of_mem hp, ?_, hpstate⟩
        rw [← hpid] at hother
        exact (renamed_of_ne hother).trans hpid
      · intro hnamed
        have hkept : ∀ k ∈ db.idempotencyKeys,
            { k with responseProblemId :=
              k.responseProblemId.map (renamed (orphanId e.code) e.externalId) } = k := by
          intro k hk
          obtain ⟨externalId, hresponse, hsettled⟩ := hnamed k hk
          rw [hresponse, Option.map_some, renamed_of_ne (hne externalId hsettled), ← hresponse]
        exact (List.map_congr_left hkept).trans (List.map_id _)
  | foreign owner hmem hcode hother hforeign =>
      rw [claimCode_foreign hunique hmem hcode hother hforeign] at hclaim
      cases hclaim

theorem Claims.unique_upsertOn {new : ProblemRow} {merge : ProblemRow → ProblemRow}
    (h : Claims e db claimed) (hnewId : new.externalId = e.externalId) (hnewCode : new.code = e.code)
    (hid : ∀ p, (merge p).externalId = p.externalId) (hcode : ∀ p, (merge p).code = e.code) :
    UniqueProblems (upsertOn ProblemRow.externalId new merge claimed.problems) := by
  constructor
  · refine nodup_map_upsertOn h.resolved.unique.ids h.resolved.unique.ids ?_ fun p _ hkey => hkey
    exact fun p hkey => (hid p).trans hkey
  · refine nodup_map_upsertOn h.resolved.unique.ids h.resolved.unique.codes ?_ ?_
    · exact fun p _ => (hcode p).trans hnewCode.symm
    · intro p hp hkey hpcode
      rw [hnewId] at hkey
      rw [hnewCode] at hpcode
      exact hkey (h.resolved.own p hp hpcode)

end Claim

/-! ## The other writes -/

section Writes

variable {edits : String → Int} {now : Timestamp} {db db' : Database}

structure Keeps (w : Write) (db db' : Database) : Prop where
  counted : ∀ edits, Counted edits db.problems →
    Counted (fun externalId => edits externalId +
      ((watchedBy db w).toList.count externalId : Nat)) db'.problems
  settled : ∀ externalId, Settled externalId db.problems → Settled externalId db'.problems
  keys : (∀ k ∈ db.idempotencyKeys, ∃ externalId, k.responseProblemId = some externalId ∧
    Settled externalId db.problems) → db'.idempotencyKeys = db.idempotencyKeys

theorem Counted.unwatched {w : Write} {problems : List ProblemRow} (h : Counted edits problems)
    (hw : watchedBy db w = none) :
    Counted (fun externalId => edits externalId +
      ((watchedBy db w).toList.count externalId : Nat)) problems := by
  apply h.congr
  intro externalId
  simp [hw]

theorem keeps_of_problems {w : Write} (hw : watchedBy db w = none)
    (hproblems : db'.problems = db.problems) (hkeys : db'.idempotencyKeys = db.idempotencyKeys) :
    Keeps w db db' := by
  refine ⟨?_, ?_, fun _ => hkeys⟩
  · intro edits h
    rw [hproblems]
    exact h.unwatched hw
  · intro externalId h
    rw [hproblems]
    exact h

theorem keeps_of_update {w : Write} {f : ProblemRow → ProblemRow} {q : ProblemRow → Bool}
    (hw : watchedBy db w = none) (hf : KeepsVersion f)
    (hproblems : db'.problems = updateWhere q f db.problems)
    (hkeys : db'.idempotencyKeys = db.idempotencyKeys) : Keeps w db db' := by
  refine ⟨?_, ?_, fun _ => hkeys⟩
  · intro edits h
    rw [hproblems]
    exact (h.update hf q).unwatched hw
  · intro externalId h
    rw [hproblems]
    exact h.update hf q

theorem settled_upsertOn {problems : List ProblemRow} {new : ProblemRow}
    {merge : ProblemRow → ProblemRow} {externalId id : String} (hstate : new.catalogState ≠ .orphan)
    (hnew : new.externalId = id)
    (hmerge : ∀ p, (merge p).externalId = p.externalId ∧ (merge p).catalogState ≠ .orphan)
    (h : Settled externalId problems ∨ externalId = id) :
    Settled externalId (upsertOn ProblemRow.externalId new merge problems) := by
  by_cases hstored : ∃ p ∈ problems, p.externalId = externalId ∧
      (p.catalogState ≠ .orphan ∨ externalId = id)
  · obtain ⟨p, hp, hid, hsettled⟩ := hstored
    by_cases hkey : p.externalId = new.externalId
    · exact ⟨merge p, mem_upsertOn.mpr (.inr (.inl ⟨p, hp, hkey, rfl⟩)), (hmerge p).1.trans hid,
        (hmerge p).2⟩
    · refine ⟨p, mem_upsertOn.mpr (.inl ⟨hp, hkey⟩), hid, ?_⟩
      exact hsettled.resolve_right fun hown => hkey (hid.trans (hown.trans hnew.symm))
  · rcases h with ⟨p, hp, hid, hsettled⟩ | rfl
    · exact absurd ⟨p, hp, hid, .inl hsettled⟩ hstored
    · refine ⟨new, mem_upsertOn.mpr (.inr (.inr ⟨rfl, ?_⟩)), hnew, hstate⟩
      intro p hp hkey
      exact hstored ⟨p, hp, hkey.trans hnew, .inr rfl⟩

theorem Settled.deleteOrphans {problems : List ProblemRow} {externalId : String}
    (h : Settled externalId problems) (id : String) :
    Settled externalId
      (deleteWhere (fun p => p.externalId = id && p.catalogState = .orphan) problems) := by
  obtain ⟨p, hp, hid, hstate⟩ := h
  exact ⟨p, mem_deleteWhere.mpr ⟨hp, by simp [hstate]⟩, hid, hstate⟩

theorem keeps_upsertProblem {e : CatalogEntry} (hunique : UniqueProblems db.problems)
    (hrun : upsertProblem now e db = .ok db') : Keeps (.upsertProblem e) db db' := by
  obtain ⟨resolved, hresolved, -, rfl⟩ := upsertProblem_eq_ok.mp hrun
  have hclaim : (∀ edits, Counted edits db.problems → Counted edits resolved.problems) ∧
      (∀ externalId, Settled externalId db.problems → Settled externalId resolved.problems) ∧
      ((∀ k ∈ db.idempotencyKeys, ∃ externalId, k.responseProblemId = some externalId ∧
        Settled externalId db.problems) → resolved.idempotencyKeys = db.idempotencyKeys) := by
    cases finds e db.problems with
    | free hown =>
        rw [resolveCode_free hown] at hresolved
        cases hresolved
        exact ⟨fun _ h => h, fun _ h => h, fun _ => rfl⟩
    | merge orphan hmem horphan hother hstored =>
        obtain ⟨-, rfl⟩ :=
          (resolveCode_merge_eq_ok hunique hmem horphan hother hstored).mp hresolved
        exact ⟨fun _ h => h.deleteOrphans _, fun _ h => h.deleteOrphans _, fun _ => rfl⟩
    | rekey orphan hmem horphan hfresh =>
        have hclaims := claims_of_claimCode hunique (claimCode_rekey hunique hmem horphan hfresh)
        rw [resolveCode_rekey hunique hmem horphan hfresh] at hresolved
        cases hresolved
        exact ⟨hclaims.counted, hclaims.settled, hclaims.keys⟩
    | foreign owner hmem hcode hother hforeign =>
        rw [resolveCode_foreign hunique hmem hcode hother hforeign] at hresolved
        cases hresolved
  obtain ⟨hcounted, hsettled, hkeys⟩ := hclaim
  refine ⟨?_, ?_, hkeys⟩
  · intro edits h
    apply Counted.unwatched _ rfl
    have hupserted := (hcounted edits h).upsert (catalogRow now e .present)
      (ProblemRow.cataloged now e .present) rfl CatalogState.noConfusion
      fun p => ⟨rfl, (Int.add_zero _).symm, CatalogState.noConfusion⟩
    apply hupserted.congr
    intro externalId
    show edits externalId = edits externalId + if externalId = e.externalId then 0 else 0
    split <;> exact (Int.add_zero _).symm
  · intro externalId h
    exact settled_upsertOn CatalogState.noConfusion rfl (fun p => ⟨rfl, CatalogState.noConfusion⟩)
      (.inl (hsettled externalId h))

theorem keeps_markDirtyIfNoReady {externalId : String} :
    Keeps (.markDirtyIfNoReady externalId) db (markDirtyIfNoReady now externalId db).1 := by
  unfold markDirtyIfNoReady
  dsimp only
  split
  · have hmark : KeepsVersion fun p =>
        { p with dirty := true, dirtyGeneration := none, stale := true, observedAt := now } :=
      fun p => ⟨rfl, rfl, fun h => h⟩
    have hallocate : ∀ generation : Int, KeepsVersion fun p =>
        { p with dirtyGeneration := some generation } :=
      fun generation p => ⟨rfl, rfl, fun h => h⟩
    refine ⟨?_, ?_, fun _ => rfl⟩
    · intro edits h
      exact ((h.update hmark _).update (hallocate _) _).unwatched rfl
    · intro id h
      exact (h.update hmark _).update (hallocate _) _
  · exact keeps_of_problems rfl rfl rfl

theorem keeps_deleteOrphanProblem {code : String}
    (hrun : DataPlane.deleteOrphanProblem code db = some db') :
    Keeps (.deleteOrphanProblem code) db db' := by
  unfold DataPlane.deleteOrphanProblem at hrun
  dsimp only at hrun
  split at hrun
  · split at hrun
    · cases hrun
    · cases hrun
      exact ⟨fun _ h => (h.deleteOrphans _).unwatched rfl, fun _ h => h.deleteOrphans _,
        fun _ => rfl⟩
  · cases hrun
    exact keeps_of_problems rfl rfl rfl

theorem keeps_upsertDiscoveredUsage {code : String} {scan : ScanResult} :
    Keeps (.upsertDiscoveredUsage code scan) db
      (DataPlane.upsertDiscoveredUsage now code scan db) := by
  unfold DataPlane.upsertDiscoveredUsage
  dsimp only
  split
  · exact keeps_of_problems rfl rfl rfl
  · split
    · exact keeps_of_problems rfl rfl rfl
    · rename_i hknown
      have hfree : ∀ p ∈ db.problems, p.externalId ≠ orphanId code ∧ p.code ≠ code := by
        simpa using hknown
      refine ⟨?_, ?_, fun _ => rfl⟩
      · intro edits h
        exact (h.append (fun p hp => (hfree p hp).1) rfl).unwatched rfl
      · rintro externalId ⟨p, hp, hsettled⟩
        exact ⟨p, List.mem_append_left _ hp, hsettled⟩

theorem keeps_acquireDirtySnapshotJobByCode {code owner : String} {leaseSeconds : Int} {id : Uuid}
    {millis : Int} {tokens : Option WatcherTokens} {job : Option DirtySnapshotJob}
    (hunique : UniqueProblems db.problems)
    (hrun : acquireDirtySnapshotJobByCode now code owner leaseSeconds id millis db =
      .ok (db', tokens, job)) :
    Keeps (.acquireDirtySnapshotJobByCode code owner leaseSeconds id millis) db db' := by
  rcases acquireDirtySnapshotJob_cases hrun with ⟨rfl, -, htarget⟩ |
      ⟨target, marked, htarget, -, hdb⟩
  · apply keeps_of_problems _ rfl rfl
    cases hfound : db'.problems.find? fun p => p.code = code &&
        (p.catalogState = .present || p.catalogState = .mirror) with
    | none => simp only [watchedBy, hfound, Option.map_none]
    | some p =>
        unfold acquireDirtySnapshotTarget at htarget
        rw [hfound] at htarget
        cases htarget
  · unfold acquireDirtySnapshotTarget at htarget
    obtain ⟨p, hfound, htarget⟩ := Option.bind_eq_some_iff.mp htarget
    obtain ⟨-, rfl⟩ := Prod.mk.inj (Option.some.inj htarget)
    have hmem := List.mem_of_find?_eq_some hfound
    have hlisted := List.find?_some hfound
    simp only [Bool.and_eq_true, Bool.or_eq_true, decide_eq_true_eq] at hlisted
    have hstate : p.catalogState ≠ .orphan := by
      rcases hlisted.2 with h | h <;> rw [h] <;> decide
    have hwatched : watchedBy db (.acquireDirtySnapshotJobByCode code owner leaseSeconds id millis) =
        some p.externalId := by
      simp only [watchedBy, hfound, Option.map_some]
    have hproblems : ∃ generation, db'.problems =
        updateWhere (fun q => q.externalId = p.externalId) (ProblemRow.watched now generation)
          db.problems := by
      rcases hdb with rfl | rfl <;> exact ⟨_, rfl⟩
    have hkeys : db'.idempotencyKeys = db.idempotencyKeys := by
      rcases hdb with rfl | rfl <;> rfl
    obtain ⟨generation, hproblems⟩ := hproblems
    refine ⟨?_, ?_, fun _ => hkeys⟩
    · intro edits h
      rw [hproblems, hwatched]
      apply (h.raise ⟨p, hmem, rfl, hstate⟩ (f := ProblemRow.watched now generation)
        fun q => ⟨rfl, rfl, rfl⟩).congr
      intro externalId
      rw [Option.toList_some, List.count_singleton]
      by_cases hid : externalId = p.externalId
      · simp [hid]
      · simp [hid, Ne.symm hid]
    · rintro externalId ⟨q, hq, hid, hqstate⟩
      rw [hproblems]
      refine ⟨_, mem_updateWhere.mpr ⟨q, hq, rfl⟩, ?_⟩
      split <;> exact ⟨hid, hqstate⟩

/-- Every write with a caller keeps the keys, and raises the versions that the watcher does. -/
theorem keeps_write {w : Write} (hunique : UniqueProblems db.problems)
    (hcalled : called db w = true) (hrun : w.run now db = some db') : Keeps w db db' := by
  have hclear : KeepsVersion fun p =>
      { p with dirty := false, dirtyGeneration := none, stale := false, observedAt := now } :=
    fun p => ⟨rfl, rfl, fun h => h⟩
  cases w with
  | upsertProblem e => exact keeps_upsertProblem hunique (toOption_eq_some.mp hrun)
  | markMissingOutsideCatalog externalIds =>
      obtain rfl := Option.some.inj hrun
      unfold markMissingOutsideCatalog
      split
      · exact keeps_of_problems rfl rfl rfl
      · refine keeps_of_update rfl ?_ rfl rfl
        exact fun p => ⟨rfl, rfl, CatalogState.noConfusion⟩
  | clearDirtyForMissingLocal =>
      obtain rfl := Option.some.inj hrun
      exact keeps_of_update rfl hclear rfl rfl
  | markDirtyIfNoReady externalId =>
      obtain rfl := Option.some.inj hrun
      exact keeps_markDirtyIfNoReady
  | clearDirtyAfterSnapshotForJob externalId generation dirtyVersion =>
      cases dirtyVersion with
      | none =>
          obtain rfl := Option.some.inj hrun
          exact keeps_of_problems rfl rfl rfl
      | some version =>
          obtain rfl := Option.some.inj hrun
          exact keeps_of_update rfl hclear rfl rfl
  | finalizeSnapshotCas a =>
      obtain ⟨-, rfl⟩ := finalizeSnapshotCas_eq_ok (toOption_eq_some.mp hrun)
      cases hversion : a.expectedDirtyVersion with
      | none => exact keeps_of_problems rfl (by simp only [finalized, hversion]) rfl
      | some version =>
          have hproblems : (finalized now a db).problems =
              clearDirtyAfterSnapshot now a.problemId a.generation (some version) db.problems := by
            simp only [finalized, hversion]
          exact keeps_of_update rfl hclear hproblems rfl
  | acquireDirtySnapshotJobByCode code owner leaseSeconds id millis =>
      obtain ⟨⟨acquired, tokens, job⟩, hok, rfl⟩ := Option.map_eq_some_iff.mp hrun
      exact keeps_acquireDirtySnapshotJobByCode hunique (toOption_eq_some.mp hok)
  | deleteOrphanProblem code => exact keeps_deleteOrphanProblem hrun
  | upsertDiscoveredUsage code scan =>
      obtain rfl := Option.some.inj hrun
      exact keeps_upsertDiscoveredUsage
  | markProblemDirty externalId | scannedProblem e state
  | markProblemDirtyIdempotent key actor fingerprint e deleted => cases hcalled
  | evictLocal q scan =>
      obtain ⟨generation, -, rfl⟩ := Option.map_eq_some_iff.mp hrun
      exact keeps_of_problems rfl rfl rfl
  | restoreSnapshot q folder =>
      obtain ⟨generation, -, rfl⟩ := Option.map_eq_some_iff.mp hrun
      exact keeps_of_problems rfl rfl rfl
  | elsewhere other =>
      obtain rfl := Option.some.inj hrun
      exact keeps_of_problems rfl rfl (of_decide_eq_true hcalled)
  | upsertProblemUsage | markLocalPresentForJob | createRestoreJobIfMissing | touchProblemAccess
  | trackSnapshotJob | deleteOrphanUsage | scannedUsage | upsertMissingUsage | markStale
  | markLocalMissingByCode | healUsageReadyProjection | markLocalVerified =>
      obtain rfl := Option.some.inj hrun
      exact keeps_of_problems rfl rfl rfl

end Writes

/-! ## The run -/

section Run

variable {start : String → Int} {s t : Notified}

def keyRow (actor : String) (n : Notification) : IdempotencyKeyRow :=
  ⟨n.idempotencyKey, "problem.dirty", actor, stableFingerprint n.e n.deleted, n.e.externalId,
    some n.e.externalId⟩

/-- The keys are those of the notifications that have been applied, and their problems are
stored for good. -/
structure NoticeInv (start : String → Int) (s : Notified) : Prop where
  unique : UniqueProblems s.db.problems
  counted : Counted (fun externalId => start externalId + s.edits externalId) s.db.problems
  once : (s.applied.map Notification.idempotencyKey).Nodup
  recorded : ∀ n ∈ s.applied, ∃ actor, keyRow actor n ∈ s.db.idempotencyKeys
  issued : ∀ k ∈ s.db.idempotencyKeys, ∃ n ∈ s.applied, ∃ actor, k = keyRow actor n
  settled : ∀ n ∈ s.applied, Settled n.e.externalId s.db.problems

theorem NoticeInv.named (h : NoticeInv start s) : ∀ k ∈ s.db.idempotencyKeys,
    ∃ externalId, k.responseProblemId = some externalId ∧ Settled externalId s.db.problems := by
  intro k hk
  obtain ⟨n, hn, actor, rfl⟩ := h.issued k hk
  exact ⟨n.e.externalId, rfl, h.settled n hn⟩

theorem NoticeInv.eq_of_repeats (h : NoticeInv start s) {n : Notification} {k : IdempotencyKeyRow}
    (hk : k ∈ s.db.idempotencyKeys)
    (hrepeats : Repeats n.idempotencyKey (stableFingerprint n.e n.deleted) n.e.externalId k) :
    n ∈ s.applied := by
  obtain ⟨m, hm, actor, rfl⟩ := h.issued k hk
  obtain ⟨⟨hkey, -⟩, hfingerprint, -⟩ := hrepeats
  have hkey : m.idempotencyKey = n.idempotencyKey := hkey
  obtain ⟨he, hdeleted⟩ := stableFingerprint_inj hfingerprint
  have hsame : m = n := by
    cases m
    cases n
    simp only [Notification.mk.injEq]
    exact ⟨hkey, he, hdeleted⟩
  rw [← hsame]
  exact hm

theorem NoticeInv.eq_of_key (h : NoticeInv start s) {n m : Notification} (hn : n ∈ s.applied)
    (hm : m ∈ s.applied) (hkey : n.idempotencyKey = m.idempotencyKey) : n = m :=
  List.inj_on_of_nodup_map h.once hn hm hkey

theorem NoticeInv.call_cases (h : NoticeInv start s) {now : Timestamp} {actor : String}
    {n : Notification} {db : Database} {mutated : Bool}
    (hcall : n.call now actor s.db = .ok (db, mutated)) :
    n ∈ s.applied ∧ mutated = false ∧ db = s.db ∨
      ∃ claimed, mutated = true ∧ Claims n.e s.db claimed ∧
        claimed.idempotencyKeys = s.db.idempotencyKeys ∧
        (∀ m ∈ s.applied, m.idempotencyKey ≠ n.idempotencyKey) ∧
        db = { notifyProblem now n.e n.deleted claimed with
          idempotencyKeys := s.db.idempotencyKeys ++ [keyRow actor n] } := by
  obtain ⟨claimed, hclaimed, hcases⟩ := markProblemDirtyIdempotent_ok hcall
  have hclaims := claims_of_claimCode h.unique hclaimed
  have hkeys := hclaims.keys h.named
  rw [hkeys] at hcases
  rcases hcases with ⟨hmutated, rfl, k, hk, hrepeats⟩ | ⟨hmutated, hfresh, -, hdb⟩
  · have hn := h.eq_of_repeats hk hrepeats
    exact .inl ⟨hn, hmutated, hclaims.same (h.settled n hn).stored⟩
  · refine .inr ⟨claimed, hmutated, hclaims, hkeys, ?_, hdb⟩
    intro m hm hkey
    obtain ⟨by', hrow⟩ := h.recorded m hm
    rw [← hkeys] at hrow
    exact hfresh _ hrow ⟨hkey, rfl⟩

/-! ## The rows of a notification -/

def notifiedRow (now : Timestamp) (e : CatalogEntry) : ProblemRow :=
  { catalogRow now e .present with dirty := true, dirtyVersion := 1, stale := true }

theorem problems_notify_deleted (now : Timestamp) (e : CatalogEntry) (db : Database) :
    (notifyProblem now e true db).problems =
      upsertOn ProblemRow.externalId (catalogRow now e .deleted) (ProblemRow.tombstoned now e)
        db.problems := rfl

theorem problems_notify (now : Timestamp) (e : CatalogEntry) (db : Database) :
    (notifyProblem now e false db).problems =
      updateWhere (fun p => p.externalId = e.externalId && p.dirty)
        (fun p => { p with
          dirtyGeneration := some (allocateGeneration e.externalId db.problemGenerationCounters).2 })
        (upsertOn ProblemRow.externalId (notifiedRow now e) (ProblemRow.notified now e)
          db.problems) := rfl

theorem keepsVersion_generation (generation : Option Int) :
    KeepsVersion fun p => { p with dirtyGeneration := generation } :=
  fun _ => ⟨rfl, rfl, fun h => h⟩

theorem UniqueProblems.update {problems : List ProblemRow} (h : UniqueProblems problems)
    {q : ProblemRow → Bool} {f : ProblemRow → ProblemRow}
    (hf : ∀ p, (f p).externalId = p.externalId ∧ (f p).code = p.code) :
    UniqueProblems (updateWhere q f problems) := by
  constructor
  · rw [map_updateWhere fun p => (hf p).1]
    exact h.ids
  · rw [map_updateWhere fun p => (hf p).2]
    exact h.codes

section Notify

variable {db claimed : Database} {n : Notification}

theorem Claims.counted_notify {edits : String → Int} (hclaims : Claims n.e db claimed)
    (h : Counted edits db.problems) (now : Timestamp) :
    Counted (fun externalId => edits externalId +
        if n.e.externalId = externalId ∧ n.deleted = false then 1 else 0)
      (notifyProblem now n.e n.deleted claimed).problems := by
  have hclaimed := hclaims.counted edits h
  cases hdeleted : n.deleted with
  | true =>
      rw [problems_notify_deleted]
      have htombstone := hclaimed.upsert (catalogRow now n.e .deleted)
        (ProblemRow.tombstoned now n.e) rfl CatalogState.noConfusion
        fun p => ⟨rfl, (Int.add_zero _).symm, CatalogState.noConfusion⟩
      apply htombstone.congr
      intro externalId
      show _ = edits externalId + if externalId = n.e.externalId then 0 else 0
      simp
  | false =>
      rw [problems_notify]
      have hnotified := hclaimed.upsert (notifiedRow now n.e)
        (ProblemRow.notified now n.e) rfl CatalogState.noConfusion
        fun p => ⟨rfl, rfl, CatalogState.noConfusion⟩
      apply (hnotified.update (keepsVersion_generation _) _).congr
      intro externalId
      show _ = edits externalId + if externalId = n.e.externalId then 1 else 0
      simp [eq_comm]

theorem Claims.settled_notify (hclaims : Claims n.e db claimed) (now : Timestamp)
    {externalId : String} (h : Settled externalId db.problems ∨ externalId = n.e.externalId) :
    Settled externalId (notifyProblem now n.e n.deleted claimed).problems := by
  have hclaimed := h.imp_left (hclaims.settled externalId)
  cases n.deleted with
  | true =>
      rw [problems_notify_deleted]
      exact settled_upsertOn CatalogState.noConfusion rfl
        (fun p => ⟨rfl, CatalogState.noConfusion⟩) hclaimed
  | false =>
      rw [problems_notify]
      apply Settled.update _ (keepsVersion_generation _)
      exact settled_upsertOn CatalogState.noConfusion rfl
        (fun p => ⟨rfl, CatalogState.noConfusion⟩) hclaimed

theorem Claims.unique_notify (hclaims : Claims n.e db claimed) (now : Timestamp) :
    UniqueProblems (notifyProblem now n.e n.deleted claimed).problems := by
  cases n.deleted with
  | true =>
      rw [problems_notify_deleted]
      exact hclaims.unique_upsertOn rfl rfl (fun _ => rfl) fun _ => rfl
  | false =>
      rw [problems_notify]
      refine UniqueProblems.update ?_ fun p => ⟨by rfl, by rfl⟩
      exact hclaims.unique_upsertOn rfl rfl (fun _ => rfl) fun _ => rfl

end Notify

/-! ## A step -/

theorem edits_apply (s : Notified) (db : Database) (n : Notification) (externalId : String) :
    Notified.edits { s with db := db, applied := s.applied ++ [n] } externalId =
      s.edits externalId + if n.e.externalId = externalId ∧ n.deleted = false then 1 else 0 := by
  have hone : (if (decide (n.e.externalId = externalId) && !n.deleted) = true then 1 else 0) =
      if n.e.externalId = externalId ∧ n.deleted = false then 1 else 0 := by
    simp
  simp only [Notified.edits, List.countP_append, List.countP_singleton]
  rw [hone]
  split <;> omega

theorem edits_watch (s : Notified) (db : Database) (watched : Option String) (externalId : String) :
    Notified.edits { s with db := db, watched := s.watched ++ watched.toList } externalId =
      s.edits externalId + (watched.toList.count externalId : Nat) := by
  simp only [Notified.edits, List.count_append]
  omega

theorem NoticeInv.apply (h : NoticeInv start s) {now : Timestamp} {actor : String}
    {n : Notification} {claimed : Database} (hclaims : Claims n.e s.db claimed)
    (hunused : ∀ m ∈ s.applied, m.idempotencyKey ≠ n.idempotencyKey) :
    NoticeInv start
      { s with
        db := { notifyProblem now n.e n.deleted claimed with
          idempotencyKeys := s.db.idempotencyKeys ++ [keyRow actor n] }
        applied := s.applied ++ [n] } := by
  refine ⟨hclaims.unique_notify now, ?_, ?_, ?_, ?_, ?_⟩
  · apply (hclaims.counted_notify h.counted now).congr
    intro externalId
    rw [edits_apply, Int.add_assoc]
  · exact nodup_map_concat h.once hunused
  · intro m hm
    rcases List.mem_append.mp hm with hm | hm
    · obtain ⟨writer, hrow⟩ := h.recorded m hm
      exact ⟨writer, List.mem_append_left _ hrow⟩
    · rw [List.mem_singleton.mp hm]
      exact ⟨actor, List.mem_append_right _ (List.mem_singleton_self _)⟩
  · intro k hk
    rcases List.mem_append.mp hk with hk | hk
    · obtain ⟨m, hm, hrow⟩ := h.issued k hk
      exact ⟨m, List.mem_append_left _ hm, hrow⟩
    · exact ⟨n, List.mem_append_right _ (List.mem_singleton_self _), actor, List.mem_singleton.mp hk⟩
  · intro m hm
    apply hclaims.settled_notify now
    rcases List.mem_append.mp hm with hm | hm
    · exact .inl (h.settled m hm)
    · exact .inr (congrArg (fun m => m.e.externalId) (List.mem_singleton.mp hm))

theorem NoticeInv.write (h : NoticeInv start s) {w : Write} {db : Database}
    (hkeeps : Keeps w s.db db) (hunique : UniqueProblems db.problems) :
    NoticeInv start { s with db := db, watched := s.watched ++ (watchedBy s.db w).toList } := by
  have hkeys := hkeeps.keys h.named
  refine ⟨hunique, ?_, h.once, ?_, ?_, ?_⟩
  · apply (hkeeps.counted _ h.counted).congr
    intro externalId
    rw [edits_watch, Int.add_assoc]
  · intro n hn
    obtain ⟨actor, hrow⟩ := h.recorded n hn
    exact ⟨actor, hkeys ▸ hrow⟩
  · intro k hk
    exact h.issued k (hkeys ▸ hk)
  · intro n hn
    exact hkeeps.settled _ (h.settled n hn)

theorem noticeInv_step {a : NoticeAction} (h : NoticeInv start s) (hstep : noticeStep s a = some t) :
    NoticeInv start t := by
  cases a with
  | notify now actor n =>
      simp only [noticeStep] at hstep
      split at hstep
      · cases hstep
        exact h
      · rename_i db mutated hcall
        cases hstep
        rcases h.call_cases hcall with ⟨-, rfl, rfl⟩ | ⟨claimed, rfl, hclaims, -, hunused, rfl⟩
        · exact h
        · exact h.apply hclaims hunused
  | write now w =>
      simp only [noticeStep] at hstep
      split at hstep
      · rename_i hcalled
        obtain ⟨db, hrun, hstep⟩ := Option.bind_eq_some_iff.mp hstep
        split at hstep
        · rename_i hunique
          cases hstep
          exact h.write (keeps_write h.unique hcalled hrun) ⟨hunique.1, hunique.2⟩
        · cases hstep
      · cases hstep

/-! ## Repetitions -/

theorem NoticeInv.rejects (h : NoticeInv start s) {n other : Notification} (hn : n ∈ s.applied)
    (hkey : other.idempotencyKey = n.idempotencyKey) (hne : other ≠ n) (now : Timestamp)
    (actor : String) : ∃ err, other.call now actor s.db = .error err := by
  cases hcall : other.call now actor s.db with
  | error err => exact ⟨err, rfl⟩
  | ok answer =>
      obtain ⟨db, mutated⟩ := answer
      rcases h.call_cases hcall with ⟨hmem, -⟩ | ⟨-, -, -, -, hunused, -⟩
      · exact absurd (h.eq_of_key hmem hn hkey) hne
      · exact absurd hkey.symm (hunused n hn)

theorem NoticeInv.replays (h : NoticeInv start s) {n : Notification} (hn : n ∈ s.applied)
    (now : Timestamp) (actor : String) :
    n.call now actor s.db = .ok (s.db, false) ↔ codeTaken n.e s.db.problems = false := by
  rw [codeTaken_eq_false]
  have hstored := (h.settled n hn).stored
  constructor
  · intro hcall
    obtain ⟨claimed, hclaimed, -⟩ := markProblemDirtyIdempotent_ok hcall
    have hclaims := claims_of_claimCode h.unique hclaimed
    rw [← hclaims.same hstored]
    exact hclaims.resolved.own
  · intro hown
    obtain ⟨writer, hrow⟩ := h.recorded n hn
    cases hfound : s.db.idempotencyKeys.find? fun k =>
        k.idempotencyKey = n.idempotencyKey && k.scope = "problem.dirty" with
    | none =>
        have hunused := List.find?_eq_none.mp hfound _ hrow
        simp [keyRow] at hunused
    | some k =>
        obtain ⟨m, hm, writer', rfl⟩ := h.issued k (List.mem_of_find?_eq_some hfound)
        have hkey : m.idempotencyKey = n.idempotencyKey := by
          have hk := List.find?_some hfound
          simp only [Bool.and_eq_true, decide_eq_true_eq] at hk
          exact hk.1
        obtain rfl := h.eq_of_key hm hn hkey
        unfold Notification.call markProblemDirtyIdempotent
        rw [claimCode_free hown]
        simp only [bind, Except.bind, hfound, keyRow, ne_eq, not_true_eq_false, decide_false,
          Bool.or_self, Bool.false_eq_true, if_false, Option.getD_some, any_eq_stored, hstored,
          decide_true, if_true]
        rfl

theorem noticeInv_start {db : Database} (h : Unnotified db) :
    NoticeInv (fun externalId => versionOf externalId db.problems) { db := db } := by
  have hversion : ∀ p ∈ db.problems, versionOf p.externalId db.problems = p.dirtyVersion := by
    intro p hp
    unfold versionOf
    cases hfound : db.problems.find? fun q => q.externalId = p.externalId with
    | none =>
        have hne := List.find?_eq_none.mp hfound p hp
        simp at hne
    | some q =>
        have hid : q.externalId = p.externalId := by simpa using List.find?_some hfound
        rw [Option.map_some, Option.getD_some,
          h.unique.eq_of_id (List.mem_of_find?_eq_some hfound) hp hid]
  have hedits : ∀ externalId, versionOf externalId db.problems +
      Notified.edits { db := db } externalId = versionOf externalId db.problems := by
    intro externalId
    exact Int.add_zero _
  refine ⟨h.unique, ⟨?_, ?_⟩, List.nodup_nil, ?_, ?_, ?_⟩
  · intro p hp
    rw [hedits, hversion p hp]
  · intro externalId hne
    rw [hedits] at hne
    unfold versionOf at hne
    cases hfound : db.problems.find? fun q => q.externalId = externalId with
    | none =>
        rw [hfound] at hne
        exact absurd rfl hne
    | some p =>
        rw [hfound] at hne
        have hid : p.externalId = externalId := by simpa using List.find?_some hfound
        have hmem := List.mem_of_find?_eq_some hfound
        exact ⟨p, hmem, hid, fun horphan => hne (h.orphans p hmem horphan)⟩
  · intro n hn
    cases hn
  · intro k hk
    rw [h.unused] at hk
    cases hk
  · intro n hn
    cases hn

/-- In every reachable state the keys are answered exactly once, and a repetition is answered
where no other problem has its code. -/
theorem notifications_exactly_once {db : Database} {acts : List NoticeAction} (h : Unnotified db)
    (hrun : exec noticeStep { db := db } acts = some s) : ExactlyOnce db s := by
  have hinv := exec_invariant (I := NoticeInv fun externalId => versionOf externalId db.problems)
    (C := fun _ _ _ => True) (fun _ _ _ h _ hstep => noticeInv_step h hstep) (noticeInv_start h)
    (everyStep_of_forall_mem fun _ _ => trivial) hrun
  refine ⟨hinv.once, hinv.counted.versionOf, ?_, fun n hn now actor => hinv.replays hn now actor⟩
  intro n hn other hkey hne now actor
  obtain ⟨err, hcall⟩ := hinv.rejects hn hkey hne now actor
  exact ⟨⟨err, hcall⟩, by simp only [noticeStep, hcall]⟩

end Run

/-! A scan has found the folder `sums`.  Problem 7 claims it and is renamed, then problem 8
takes the code. -/

def scannedFolders : Database := { problems := [orphanRow "sums"] }

def claimSums : Notification := ⟨"first", sampleEntry, false⟩

def renameSums : Notification := ⟨"second", { sampleEntry with code := "max" }, false⟩

def codePassedOn : List NoticeAction :=
  [.notify 1 "clueoj" claimSums, .notify 2 "clueoj" renameSums,
    .write 3 (.upsertProblem { sampleEntry with externalId := "8" })]

theorem unnotified_scannedFolders : Unnotified scannedFolders :=
  ⟨⟨by decide, by decide⟩, by decide, rfl⟩

theorem notifications_exactly_once_renamed :
    ∃ s, exec noticeStep { db := scannedFolders } codePassedOn = some s ∧
      s.applied = [claimSums, renameSums] ∧ ExactlyOnce scannedFolders s := by
  obtain ⟨s, hrun, happlied⟩ : ∃ s, exec noticeStep { db := scannedFolders } codePassedOn = some s ∧
      s.applied = [claimSums, renameSums] := ⟨_, rfl, rfl⟩
  exact ⟨s, hrun, happlied, notifications_exactly_once unnotified_scannedFolders hrun⟩

/-- The repetition of the first notification is turned down. -/
theorem repeated_notification_refused :
    ∃ s, exec noticeStep { db := scannedFolders } codePassedOn = some s ∧
      claimSums ∈ s.applied ∧
      claimSums.call 4 "clueoj" s.db = .error (.codeConflict "sums" "8") :=
  ⟨_, rfl, by simp, rfl⟩

end ExternalStorage.Catalog
