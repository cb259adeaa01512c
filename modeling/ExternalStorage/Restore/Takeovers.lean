import ExternalStorage.Jobs.Creation
import ExternalStorage.Library.Json
import ExternalStorage.Model.Restores

/-!
# What a restore request cancels

A restore takes over from the scans and snapshots that wait for the missing folder.
`createRestoreJobIfMissing` cancels them before it looks whether the folder is missing at all,
and commits when it is not; the manual route cancels them in a transaction of its own, and
creates its job, or does not, in the next one.
-/

namespace ExternalStorage.Restore

open ExternalStorage.Model ExternalStorage.Jobs Library Library.Table

/-! ## The two requests -/

/-- `POST /api/v1/problems/:externalId/restore`. -/
structure RestoreCommand where
  externalId : String
  generation : Option Int
  dryRun : Bool
  idempotencyKey : Option String
  deriving DecidableEq, Repr

/-- `stableFingerprint({ action: 'restore', external_id, generation })`. -/
def restoreFingerprint (externalId : String) (generation : Int) : String :=
  String.ofList (Json.object
    [("action", .str "restore"), ("external_id", .str externalId), ("generation", .num generation)])

def RestoreCommand.request (c : RestoreCommand) (idempotencyKey : String) (generation : Int) :
    JobRequest :=
  ⟨idempotencyKey, .restore, some c.externalId, some generation,
    restoreFingerprint c.externalId generation⟩

inductive RestoreReply where
  /-- 404. -/
  | notFound
  | dryRun
  /-- `getIdempotencyKey` has replied. -/
  | keyMissing
  /-- 409, `not_ready`. -/
  | notReady
  | accepted (jobId : Uuid)
  | failed (e : CreateJobError)
  deriving DecidableEq, Repr

def RestoreCommand.resolve (c : RestoreCommand) (db : Database) :
    Except RestoreReply (String × Int) :=
  if !db.problems.any fun p => p.externalId = c.externalId then .error .notFound
  else if c.dryRun then .error .dryRun
  else
    match c.idempotencyKey with
    | none => .error .keyMissing
    | some key =>
        match c.generation.or ((latestReady c.externalId db.snapshots).map SnapshotRow.generation)
          with
        | none => .error .notReady
        | some generation => .ok (key, generation)

/-- The route; the cancellation has committed when `createJob` starts. -/
def restoreRoute (now : Timestamp) (id : Uuid) (c : RestoreCommand) (db : Database) :
    Database × RestoreReply :=
  match c.resolve db with
  | .error reply => (db, reply)
  | .ok (key, generation) =>
      let cancelled := cancelPendingLocalJobsForRestore now c.externalId db
      match createJob now id (c.request key generation) cancelled with
      | .ok (db', j) => (db', .accepted j.id)
      | .error e => (cancelled, .failed e)

inductive TakeoverRequest where
  | ensureReady (q : RestoreClaim)
  | manual (c : RestoreCommand)
  deriving DecidableEq, Repr

def TakeoverRequest.problemId : TakeoverRequest → String
  | .ensureReady q => q.problemId
  | .manual c => c.externalId

def TakeoverRequest.run (now : Timestamp) (id : Uuid) (db : Database) :
    TakeoverRequest → Database × Option Uuid
  | .ensureReady q =>
      match createRestoreJobIfMissing now id q db with
      | .ok (db', .ready) => (db', none)
      | .ok (db', .job jobId) => (db', some jobId)
      | .error _ => (db, none)
  | .manual c =>
      match restoreRoute now id c db with
      | (db', .accepted jobId) => (db', some jobId)
      | (db', _) => (db', none)

/-! ## Cancelling exactly on a takeover -/

def jobStates (jobs : List JobRow) : List (Uuid × JobState) := jobs.map fun j => (j.id, j.state)

def TakeoverRequest.takesOver (now : Timestamp) (id : Uuid) (db : Database)
    (q : TakeoverRequest) : Bool :=
  match (q.run now id db).2 with
  | none => false
  | some jobId => db.jobs.all fun j => j.id ≠ jobId

/-- Without a new job no row changes its state, and with one the waiting scans and snapshots
of the problem are cancelled. -/
def CancelsOnTakeover (now : Timestamp) (id : Uuid) (db : Database) (q : TakeoverRequest) : Prop :=
  if q.takesOver now id db then
    ∀ j ∈ db.jobs, pendingLocal q.problemId j = true →
      (j.id, .cancelled) ∈ jobStates (q.run now id db).1.jobs
  else
    jobStates (q.run now id db).1.jobs = jobStates db.jobs

instance (now : Timestamp) (id : Uuid) (db : Database) (q : TakeoverRequest) :
    Decidable (CancelsOnTakeover now id db q) := by
  unfold CancelsOnTakeover
  infer_instance

/-- A job that the manual route would be answered with or be refused for. -/
def StandsAgainst (c : RestoreCommand) (key : String) (generation : Int) (j : JobRow) : Prop :=
  keyedBy (c.request key generation) j ∨
    j.problemId = some c.externalId ∧ j.jobType.exclusive = true ∧ j.state.active = true ∧
      pendingLocal c.externalId j = false

instance (c : RestoreCommand) (key : String) (generation : Int) (j : JobRow) :
    Decidable (StandsAgainst c key generation j) :=
  inferInstanceAs (Decidable (_ ∨ _))

/-- The request gets as far as the cancellation only to create its job. -/
def TakeoverCommitted (db : Database) : TakeoverRequest → Prop
  | .ensureReady q =>
      (∃ j ∈ db.jobs, j.idempotencyKey = q.idempotencyKey ∧ j.jobType = .restore) ∨
        (∃ j ∈ db.jobs, q.joins j = true) ∨
        presentSince q.problemId q.missingObservedAt db.problemUsage = false
  | .manual c =>
      ∀ key generation, c.resolve db = .ok (key, generation) →
        ∀ j ∈ db.jobs, ¬ StandsAgainst c key generation j

/-! ## The cancellation -/

section Cancellation

variable {now : Timestamp} {id : Uuid} {problemId : String} {db : Database}

theorem jobStates_cancelled :
    jobStates (cancelPendingLocalJobsForRestore now problemId db).jobs = jobStates db.jobs ↔
      ∀ j ∈ db.jobs, pendingLocal problemId j = false := by
  have hstates :
      ((updateWhere (pendingLocal problemId) (supersededByRestore now) db.jobs).filter
          fun _ => true).map (fun j => (j.id, j.state)) =
        (db.jobs.filter fun _ => true).map (fun j => (j.id, j.state)) ↔ _ :=
    map_filter_updateWhere (by intro j; rfl) db.jobs
  rw [List.filter_true, List.filter_true] at hstates
  rw [cancelPendingLocalJobsForRestore_eq, jobStates, jobStates, hstates]
  constructor
  · intro h j hj
    rw [← Bool.not_eq_true]
    intro hpending
    have hsame := (Prod.mk.inj (h j hj rfl hpending)).2
    rw [(pendingLocal_iff.mp hpending).2.2] at hsame
    cases hsame
  · intro h j hj _ hpending
    rw [h j hj] at hpending
    cases hpending

theorem mem_cancelled {j : JobRow} :
    j ∈ (cancelPendingLocalJobsForRestore now problemId db).jobs ↔
      ∃ j₀ ∈ db.jobs, j = if pendingLocal problemId j₀ then supersededByRestore now j₀ else j₀ :=
  mem_updateWhere

theorem cancelled_ids :
    (cancelPendingLocalJobsForRestore now problemId db).jobs.map JobRow.id =
      db.jobs.map JobRow.id :=
  map_updateWhere (by intro j; rfl) _

variable (now problemId) in
theorem jobIndexes_cancelled (hidx : JobIndexes db.jobs) :
    JobIndexes (cancelPendingLocalJobsForRestore now problemId db).jobs := by
  refine ⟨?_, ?_, ?_⟩
  · rw [cancelled_ids]
    exact hidx.ids
  · rw [show (cancelPendingLocalJobsForRestore now problemId db).jobs.map
      (fun j => (j.idempotencyKey, j.jobType)) = db.jobs.map fun j => (j.idempotencyKey, j.jobType)
      from map_updateWhere (by intro j; rfl) _]
    exact hidx.keys
  · refine (activeGuards_updateWhere hidx.guards (by intro j; rfl)).mpr ?_
    intro j _ k _ _ _
    rw [← Bool.not_eq_true, conflicting_eq_true]
    rintro ⟨hactive, -⟩
    cases hactive

theorem mem_ids_of_cancelled {j : JobRow}
    (hj : j ∈ (cancelPendingLocalJobsForRestore now problemId db).jobs) :
    ∃ k ∈ db.jobs, k.id = j.id := by
  have hid := List.mem_map_of_mem (f := JobRow.id) hj
  rw [cancelled_ids] at hid
  exact List.mem_map.mp hid

theorem cancelled_unkeyed {key : String}
    (h : ∀ j ∈ db.jobs, ¬ (j.idempotencyKey = key ∧ j.jobType = .restore)) :
    ∀ j ∈ (cancelPendingLocalJobsForRestore now problemId db).jobs,
      ¬ (j.idempotencyKey = key ∧ j.jobType = .restore) := by
  intro j hj
  obtain ⟨j₀, hj₀, rfl⟩ := mem_cancelled.mp hj
  split <;> exact h j₀ hj₀

theorem cancelled_joins {q : RestoreClaim} (h : ∀ j ∈ db.jobs, q.joins j = false) :
    ∀ j ∈ (cancelPendingLocalJobsForRestore now problemId db).jobs, q.joins j = false := by
  intro j hj
  obtain ⟨j₀, hj₀, rfl⟩ := mem_cancelled.mp hj
  split
  · rw [← Bool.not_eq_true, RestoreClaim.joins_iff]
    rintro ⟨-, -, -, hactive⟩
    cases hactive
  · exact h j₀ hj₀

theorem cancelled_states {more : List JobRow} {j : JobRow} (hj : j ∈ db.jobs)
    (hpending : pendingLocal problemId j = true) :
    (j.id, .cancelled) ∈
      jobStates ((cancelPendingLocalJobsForRestore now problemId db).jobs ++ more) := by
  have hmem : supersededByRestore now j ∈
      (cancelPendingLocalJobsForRestore now problemId db).jobs :=
    mem_cancelled.mpr ⟨j, hj, by rw [if_pos hpending]⟩
  exact List.mem_map.mpr ⟨_, List.mem_append_left _ hmem, rfl⟩

end Cancellation

/-! ## Which requests cancel only on a takeover -/

section Requests

variable {now : Timestamp} {id : Uuid} {db : Database}

theorem not_takesOver {q : TakeoverRequest} {j : JobRow} (hj : j ∈ db.jobs)
    (h : (q.run now id db).2 = some j.id) : q.takesOver now id db = false := by
  unfold TakeoverRequest.takesOver
  rw [h]
  dsimp only
  rw [List.all_eq_false]
  exact ⟨j, hj, by simp⟩

theorem takesOver_new {q : TakeoverRequest} (hfresh : ∀ j ∈ db.jobs, j.id ≠ id)
    (h : (q.run now id db).2 = some id) : q.takesOver now id db = true := by
  unfold TakeoverRequest.takesOver
  rw [h]
  dsimp only
  rw [List.all_eq_true]
  intro j hj
  exact decide_eq_true (hfresh j hj)

/-- A request that returns no new job, by what it leaves of the queue. -/
theorem cancels_without_takeover {q : TakeoverRequest}
    (h : q.takesOver now id db = false) :
    CancelsOnTakeover now id db q ↔
      jobStates (q.run now id db).1.jobs = jobStates db.jobs := by
  rw [CancelsOnTakeover, h]
  exact Iff.rfl

theorem cancels_of_unchanged {q : TakeoverRequest} (h : q.takesOver now id db = false)
    (hjobs : (q.run now id db).1 = db) : CancelsOnTakeover now id db q := by
  rw [cancels_without_takeover h, hjobs]

theorem cancels_ensureReady_iff (hfresh : ∀ j ∈ db.jobs, j.id ≠ id) (q : RestoreClaim) :
    CancelsOnTakeover now id db (.ensureReady q) ↔
      TakeoverCommitted db (.ensureReady q) ∨
        ∀ j ∈ db.jobs, pendingLocal q.problemId j = false := by
  cases hreplay : q.replay db.jobs with
  | some j =>
      have hj : j ∈ db.jobs := List.mem_of_find?_eq_some hreplay
      have hkey := List.find?_some hreplay
      rw [Bool.and_eq_true, decide_eq_true_eq, decide_eq_true_eq] at hkey
      refine iff_of_true ?_ (.inl (.inl ⟨j, hj, hkey⟩))
      by_cases hrepeats : q.repeats j = true
      · have hrun : createRestoreJobIfMissing now id q db = .ok (db, .job j.id) := by
          rw [createRestoreJobIfMissing, hreplay]
          exact if_pos hrepeats
        apply cancels_of_unchanged
        · exact not_takesOver hj (by rw [TakeoverRequest.run, hrun])
        · rw [TakeoverRequest.run, hrun]
      · have hrun : createRestoreJobIfMissing now id q db = .error .idempotencyConflict := by
          rw [createRestoreJobIfMissing, hreplay]
          exact if_neg hrepeats
        apply cancels_of_unchanged
        · rw [TakeoverRequest.takesOver, TakeoverRequest.run, hrun]
        · rw [TakeoverRequest.run, hrun]
  | none =>
      have hkeys := RestoreClaim.replay_eq_none.mp hreplay
      cases hactive : q.active db.jobs with
      | some j =>
          obtain ⟨hj, hjoins⟩ := List.mem_filter.mp (mem_of_firstBy hactive)
          have hrun : createRestoreJobIfMissing now id q db = .ok (db, .job j.id) := by
            rw [createRestoreJobIfMissing, hreplay, hactive]
          refine iff_of_true ?_ (.inl (.inr (.inl ⟨j, hj, hjoins⟩)))
          apply cancels_of_unchanged
          · exact not_takesOver hj (by rw [TakeoverRequest.run, hrun])
          · rw [TakeoverRequest.run, hrun]
      | none =>
          have hnone := RestoreClaim.active_eq_none.mp hactive
          by_cases hpresent : presentSince q.problemId q.missingObservedAt db.problemUsage = true
          · have hrun : createRestoreJobIfMissing now id q db =
                .ok (cancelPendingLocalJobsForRestore now q.problemId db, .ready) := by
              rw [createRestoreJobIfMissing, hreplay, hactive]
              exact if_pos hpresent
            have hcommitted : ¬ TakeoverCommitted db (.ensureReady q) := by
              rintro (⟨j, hj, hkey⟩ | ⟨j, hj, hjoins⟩ | hgone)
              · exact hkeys j hj hkey
              · exact absurd hjoins (Bool.eq_false_iff.mp (hnone j hj))
              · exact absurd hpresent (Bool.eq_false_iff.mp hgone)
            rw [or_iff_right hcommitted, cancels_without_takeover, TakeoverRequest.run, hrun]
            · exact jobStates_cancelled
            · rw [TakeoverRequest.takesOver, TakeoverRequest.run, hrun]
          · refine iff_of_true ?_ (.inl (.inr (.inr (Bool.eq_false_iff.mpr hpresent))))
            have hrun : createRestoreJobIfMissing now id q db =
                q.create now id (cancelPendingLocalJobsForRestore now q.problemId db) := by
              rw [createRestoreJobIfMissing, hreplay, hactive]
              exact if_neg hpresent
            rcases @createJob_new now id q.request
              { cancelPendingLocalJobsForRestore now q.problemId db with
                problemUsage := markMissingForRestore q.problemId q.missingObservedAt
                  (cancelPendingLocalJobsForRestore now q.problemId db).problemUsage }
              q.problemId rfl rfl (cancelled_unkeyed hkeys)
              (RestoreClaim.activeFor_eq_none (cancelled_joins hnone)) with ⟨hok, -⟩ | herror
            · obtain ⟨db', hcreated, hjobs⟩ :
                  ∃ db', createRestoreJobIfMissing now id q db = .ok (db', .job id) ∧
                    db'.jobs = (cancelPendingLocalJobsForRestore now q.problemId db).jobs ++
                      [newJob now id q.request] := by
                rw [hrun, RestoreClaim.create, hok]
                exact ⟨_, rfl, rfl⟩
              rw [CancelsOnTakeover, takesOver_new hfresh (by rw [TakeoverRequest.run, hcreated]),
                if_pos rfl, TakeoverRequest.run, hcreated]
              dsimp only
              rw [hjobs]
              intro j hj hpending
              exact cancelled_states hj hpending
            · have hrefused : createRestoreJobIfMissing now id q db =
                  .error (.problemOperationConflict q.problemId) := by
                rw [hrun, RestoreClaim.create, herror]
                rfl
              apply cancels_of_unchanged
              · rw [TakeoverRequest.takesOver, TakeoverRequest.run, hrefused]
              · rw [TakeoverRequest.run, hrefused]

variable (now id) in
theorem manual_run {c : RestoreCommand} {key : String} {generation : Int}
    (h : c.resolve db = .ok (key, generation)) :
    (TakeoverRequest.manual c).run now id db =
      match createJob now id (c.request key generation)
          (cancelPendingLocalJobsForRestore now c.externalId db) with
      | .ok (db', j) => (db', some j.id)
      | .error _ => (cancelPendingLocalJobsForRestore now c.externalId db, none) := by
  rw [TakeoverRequest.run, restoreRoute, h]
  dsimp only
  cases createJob now id (c.request key generation)
    (cancelPendingLocalJobsForRestore now c.externalId db) <;> rfl

variable (now) in
theorem StandsAgainst.cancelled {c : RestoreCommand} {key : String} {generation : Int} {j : JobRow}
    (hj : j ∈ db.jobs) (h : StandsAgainst c key generation j) :
    ∃ k ∈ (cancelPendingLocalJobsForRestore now c.externalId db).jobs,
      keyedBy (c.request key generation) k ∨
        (c.request key generation).problemId ≠ none ∧
          OtherOperation (c.request key generation) k := by
  rcases h with hkeyed | ⟨hid, hexclusive, hactive, hpending⟩
  · refine ⟨_, mem_cancelled.mpr ⟨j, hj, rfl⟩, .inl ?_⟩
    split <;> exact hkeyed
  · refine ⟨j, mem_cancelled.mpr ⟨j, hj, ?_⟩, .inr ⟨Option.some_ne_none _, hid, hexclusive,
      hactive, ?_, ?_⟩⟩
    · rw [if_neg (Bool.eq_false_iff.mp hpending)]
    · exact fun h => JobType.noConfusion h.1
    · exact fun h => JobType.noConfusion h.1

variable (now) in
/-- Where none does, neither the key nor another operation is found after the cancellation. -/
theorem free_of_not_stands {c : RestoreCommand} {key : String} {generation : Int}
    (h : ∀ j ∈ db.jobs, ¬ StandsAgainst c key generation j) :
    ∀ k ∈ (cancelPendingLocalJobsForRestore now c.externalId db).jobs,
      ¬ keyedBy (c.request key generation) k ∧ ¬ OtherOperation (c.request key generation) k := by
  intro k hk
  obtain ⟨j, hj, rfl⟩ := mem_cancelled.mp hk
  split
  · refine ⟨fun hkeyed => h j hj (.inl hkeyed), ?_⟩
    rintro ⟨-, -, hactive, -⟩
    cases hactive
  · rename_i hpending
    refine ⟨fun hkeyed => h j hj (.inl hkeyed), ?_⟩
    rintro ⟨hid, hexclusive, hactive, -, -⟩
    exact h j hj (.inr ⟨hid, hexclusive, hactive, Bool.eq_false_iff.mpr hpending⟩)

theorem resolve_ne_accepted (c : RestoreCommand) (db : Database) (jobId : Uuid) :
    c.resolve db ≠ .error (.accepted jobId) := by
  unfold RestoreCommand.resolve
  split
  · exact nofun
  · split
    · exact nofun
    · split
      · exact nofun
      · split <;> exact nofun

theorem cancels_manual_iff (hidx : JobIndexes db.jobs) (hfresh : ∀ j ∈ db.jobs, j.id ≠ id)
    (c : RestoreCommand) :
    CancelsOnTakeover now id db (.manual c) ↔
      TakeoverCommitted db (.manual c) ∨ ∀ j ∈ db.jobs, pendingLocal c.externalId j = false := by
  cases hresolve : c.resolve db with
  | error reply =>
      have hroute : restoreRoute now id c db = (db, reply) := by
        rw [restoreRoute, hresolve]
      have hcommitted : TakeoverCommitted db (.manual c) := by
        intro key generation hok
        cases hresolve.symm.trans hok
      have hrun : (TakeoverRequest.manual c).run now id db = (db, none) := by
        rw [TakeoverRequest.run, hroute]
        cases reply with
        | accepted jobId => exact absurd hresolve (resolve_ne_accepted c db jobId)
        | notFound | dryRun | keyMissing | notReady | failed => rfl
      refine iff_of_true ?_ (.inl hcommitted)
      apply cancels_of_unchanged
      · rw [TakeoverRequest.takesOver, hrun]
      · rw [hrun]
  | ok resolved =>
      obtain ⟨key, generation⟩ := resolved
      have hcommitted : TakeoverCommitted db (.manual c) ↔
          ∀ j ∈ db.jobs, ¬ StandsAgainst c key generation j := by
        constructor
        · intro h
          exact h key generation hresolve
        · intro h key' generation' hok
          cases hresolve.symm.trans hok
          exact h
      rw [hcommitted]
      by_cases hstands : ∀ j ∈ db.jobs, ¬ StandsAgainst c key generation j
      · refine iff_of_true ?_ (.inl hstands)
        have hfree := free_of_not_stands now hstands
        have hok := createJob_inserts now id (r := c.request key generation)
          (jobIndexes_cancelled now c.externalId hidx)
          (by
            intro k hk
            obtain ⟨j, hj, hid⟩ := mem_ids_of_cancelled hk
            exact hid ▸ hfresh j hj)
          (fun k hk => (hfree k hk).1) ?_ (.inr fun k hk => (hfree k hk).2)
          (fun h => JobType.noConfusion h)
        · have hrun := manual_run now id hresolve
          rw [hok] at hrun
          dsimp only at hrun
          rw [CancelsOnTakeover, takesOver_new hfresh (by rw [hrun]; rfl), if_pos rfl, hrun]
          intro j hj hpending
          exact cancelled_states hj hpending
        · refine ((activeFor_cases _ _).resolve_left ?_).1
          rintro ⟨k, -, hk, ⟨htype, hid, -, -, hactive⟩, -⟩
          refine (hfree k hk).2 ⟨hid, htype ▸ rfl, hactive, ?_, ?_⟩
          · exact fun h => JobType.noConfusion h.1
          · exact fun h => JobType.noConfusion h.1
      · rw [or_iff_right hstands]
        simp only [not_forall, not_not] at hstands
        obtain ⟨j, hj, hstands⟩ := hstands
        obtain ⟨k, hk, hanswered⟩ := hstands.cancelled now hj
        have hrun := manual_run now id hresolve
        rcases createJob_answered now id
          (jobIndexes_cancelled now c.externalId hidx) hk hanswered with
          ⟨k', hk', hok⟩ | ⟨e, herror⟩
        · rw [hok] at hrun
          dsimp only at hrun
          obtain ⟨k₀, hk₀, hid⟩ := mem_ids_of_cancelled hk'
          rw [cancels_without_takeover (not_takesOver hk₀ (by rw [hrun, hid])), hrun]
          exact jobStates_cancelled
        · rw [herror] at hrun
          dsimp only at hrun
          rw [cancels_without_takeover, hrun]
          · exact jobStates_cancelled
          · rw [TakeoverRequest.takesOver, hrun]

/-- A restore request cancels waiting work exactly on a takeover if and only if it is committed
to the takeover when it cancels, or nothing waits. -/
theorem cancels_on_takeover_iff (hidx : JobIndexes db.jobs) (hfresh : ∀ j ∈ db.jobs, j.id ≠ id)
    (q : TakeoverRequest) :
    CancelsOnTakeover now id db q ↔
      TakeoverCommitted db q ∨ ∀ j ∈ db.jobs, pendingLocal q.problemId j = false := by
  cases q with
  | ensureReady q => exact cancels_ensureReady_iff hfresh q
  | manual c => exact cancels_manual_iff hidx hfresh c

end Requests

section Sample

def waitingQueue (localStatus : LocalStatus) : Database where
  problems := [catalogRow 0 ⟨"101", "aplusb", none, false, none, none, none, 1⟩ .present]
  problemUsage := [{ defaultUsage 10000 "101" with localStatus := localStatus }]
  jobs :=
    [newJob 0 1 ⟨"scan-1", .scan, some "101", none, "scan"⟩,
      { newJob 0 2 ⟨"restore-1", .restore, some "101", some 1, restoreFingerprint "101" 1⟩ with
        state := .completed }]

theorem waitingQueue_indexes (localStatus : LocalStatus) :
    JobIndexes (waitingQueue localStatus).jobs := by
  rw [show (waitingQueue localStatus).jobs = (waitingQueue .missing).jobs from rfl]
  exact ⟨by decide, by decide, by decide⟩

/-- The folder is missing, and a restore takes over. -/
theorem cancels_on_takeover_missing :
    (TakeoverRequest.ensureReady ⟨"ensure-1", "101", 1, "ensure", 5000⟩).takesOver 20000 3
        (waitingQueue .missing) = true ∧
      CancelsOnTakeover 20000 3 (waitingQueue .missing)
        (.ensureReady ⟨"ensure-1", "101", 1, "ensure", 5000⟩) :=
  ⟨by decide, (cancels_on_takeover_iff (waitingQueue_indexes .missing) (by decide) _).mpr
    (.inl (.inr (.inr (by decide))))⟩

/-- The folder is there again, and the call reports ready: the scan is cancelled.  So it is when
the manual route is asked again under the key of a restore that has ended. -/
theorem cancels_without_takeover_ready :
    createRestoreJobIfMissing 20000 3 ⟨"ensure-1", "101", 1, "ensure", 5000⟩
        (waitingQueue .present) =
        .ok (cancelPendingLocalJobsForRestore 20000 "101" (waitingQueue .present), .ready) ∧
      ¬ CancelsOnTakeover 20000 3 (waitingQueue .present)
        (.ensureReady ⟨"ensure-1", "101", 1, "ensure", 5000⟩) ∧
      ¬ CancelsOnTakeover 20000 3 (waitingQueue .missing)
        (.manual ⟨"101", some 1, false, some "restore-1"⟩) := by
  refine ⟨by rfl, by decide, by decide +kernel⟩

end Sample

end ExternalStorage.Restore
