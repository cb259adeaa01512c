import ExternalStorage.Library.Exclusion
import ExternalStorage.Publication.Machine

/-!
# What a step does

Each step of the machine as one of the moves below, with the checks that have passed, and
what follows for the locks: no two operations are in a transaction of one problem.
-/

namespace ExternalStorage.Publication

open ExternalStorage.Model Library.Exclusion

variable {Bytes : Type} {site : Site Bytes}

/-! ## Moves -/

inductive EvictMoves (site : Site Bytes) (w : World Bytes) (q : EvictRequest) (generation : Int) :
    EvictPhase Bytes → World Bytes → EvictPhase Bytes → Prop
  | lock : dataLockFree w.operations [] = true →
      EvictMoves site w q generation .admitted w .locked
  | scan {folder scan} : w.folder = some folder →
      scanProblemFolder site.contents site.root site.code (some folder.walk) = .ok scan →
      EvictMoves site w q generation .locked w (.scanned scan)
  | matching {scan} : evictMatches w.db q generation scan = .ok () → q.dryRun = false →
      EvictMoves site w q generation (.scanned scan) w (.matched scan)
  | fence {scan} : advisoryLockFree w.operations q.problemId = true →
      ensureLatestFencing w.db.jobs q.problemId q.fencingToken = .ok () →
      EvictMoves site w q generation (.matched scan) w (.fenced scan)
  | check {scan} : evictChecks w.db q generation = .ok () →
      EvictMoves site w q generation (.fenced scan) w (.checked scan)
  | rename {scan folder} : w.folder = some folder →
      EvictMoves site w q generation (.checked scan) { w with folder := none } (.renamed folder)

inductive RestoreMoves (site : Site Bytes) (w : World Bytes) (q : RestoreRequest)
    (generation : Int) : RestorePhase Bytes → World Bytes → RestorePhase Bytes → Prop
  | lock : dataLockFree w.operations (lockDirectory q) = true →
      RestoreMoves site w q generation .prepared w .locked
  | fence : advisoryLockFree w.operations q.problemId = true →
      ensureLatestFencing w.db.jobs q.problemId q.fencingToken = .ok () →
      RestoreMoves site w q generation .locked w .fenced
  | ready : restoreReady w.db q generation = .ok () →
      RestoreMoves site w q generation .fenced w .found
  | vacant : w.folder = none → RestoreMoves site w q generation .found w .vacant
  | clean {folder} : w.folder = some folder → restoreNotDirty w.db q = .ok () →
      RestoreMoves site w q generation .found w .clean
  | scan {folder scan} : w.folder = some folder →
      scanProblemFolder site.contents site.root q.fileName (some folder.walk) = .ok scan →
      RestoreMoves site w q generation .clean w (.scanned scan)
  | matching {scan} : restoreMatches w.db q generation scan = .ok () →
      RestoreMoves site w q generation (.scanned scan) w .matched
  | clear {phase} : phase = .vacant ∨ phase = .matched →
      RestoreMoves site w q generation phase { w with folder := none } (.cleared w.folder)

inductive Moves (site : Site Bytes) (w : World Bytes) :
    Operation Bytes → World Bytes → Operation Bytes → Prop
  | quit {o} : Moves site w o w .done
  | evict {q generation phase w' phase'} : EvictMoves site w q generation phase w' phase' →
      Moves site w (.evict ⟨q, generation, phase⟩) w' (.evict ⟨q, generation, phase'⟩)
  | evicted {q generation folder w'} :
      w.write (evicted w.ledger.now q generation w.db) = some w' →
      Moves site w (.evict ⟨q, generation, .renamed folder⟩) w' .done
  | restore {q generation staging phase w' phase'} :
      RestoreMoves site w q generation phase w' phase' →
      Moves site w (.restore ⟨q, generation, staging, phase⟩) w'
        (.restore ⟨q, generation, staging, phase'⟩)
  | restored {q generation staging w'} : w.write (restored w.ledger.now q w.db) = some w' →
      Moves site w (.restore ⟨q, generation, staging, .published⟩) w' .done
  | finalized {a w'} : FinalizeAdmitted w.ledger.now a w.db →
      w.write (finalized w.ledger.now a w.db) = some w' → Moves site w (.finalize a) w' .done

section Moves

variable {w w' : World Bytes} {o o' : Operation Bytes}

theorem moves_after {α : Type} {x : Except AppError α} {next : α → Operation Bytes}
    (h : ∀ a, x = .ok a → Moves site w o w (next a)) : Moves site w o w (.after x next) := by
  cases hx : x with
  | error e => exact .quit
  | ok a => exact h a hx

theorem moves_evict {e : Eviction Bytes} (h : advanceEvict site w e = some (w', o')) :
    Moves site w (.evict e) w' o' := by
  obtain ⟨q, generation, phase⟩ := e
  cases phase with
  | admitted =>
      simp only [advanceEvict] at h
      split at h
      · rename_i hfree
        cases h
        exact .evict (.lock hfree)
      · cases h
  | locked =>
      simp only [advanceEvict] at h
      split at h
      · cases h
        exact .quit
      · rename_i folder hfolder
        cases h
        exact moves_after fun scan hscan => .evict (.scan hfolder hscan)
  | scanned scan =>
      cases h
      apply moves_after
      intro _ hmatches
      dsimp only
      split
      · exact .quit
      · rename_i hdry
        exact .evict (.matching hmatches (Bool.eq_false_iff.mpr hdry))
  | matched scan =>
      simp only [advanceEvict] at h
      split at h
      · rename_i hfree
        cases h
        exact moves_after fun _ hfenced => .evict (.fence hfree hfenced)
      · cases h
  | fenced scan =>
      cases h
      exact moves_after fun _ hchecks => .evict (.check hchecks)
  | checked scan =>
      simp only [advanceEvict] at h
      split at h
      · cases h
        exact .quit
      · rename_i folder hfolder
        cases h
        exact .evict (.rename hfolder)
  | renamed folder =>
      obtain ⟨w₁, hwrite, hpair⟩ := Option.map_eq_some_iff.mp h
      cases hpair
      exact .evicted hwrite

theorem moves_restore {r : Restoration Bytes} (h : advanceRestore site w r = some (w', o')) :
    Moves site w (.restore r) w' o' := by
  obtain ⟨q, generation, staging, phase⟩ := r
  cases phase with
  | prepared =>
      simp only [advanceRestore] at h
      split at h
      · rename_i hfree
        cases h
        exact .restore (.lock hfree)
      · cases h
  | locked =>
      simp only [advanceRestore] at h
      split at h
      · rename_i hfree
        cases h
        exact moves_after fun _ hfenced => .restore (.fence hfree hfenced)
      · cases h
  | fenced =>
      cases h
      exact moves_after fun _ hready => .restore (.ready hready)
  | found =>
      simp only [advanceRestore] at h
      split at h
      · rename_i hfolder
        cases h
        exact .restore (.vacant hfolder)
      · rename_i folder hfolder
        cases h
        exact moves_after fun _ hclean => .restore (.clean hfolder hclean)
  | vacant =>
      cases h
      exact .restore (.clear (.inl rfl))
  | matched =>
      cases h
      exact .restore (.clear (.inr rfl))
  | clean =>
      simp only [advanceRestore] at h
      split at h
      · cases h
        exact .quit
      · rename_i folder hfolder
        cases h
        exact moves_after fun scan hscan => .restore (.scan hfolder hscan)
  | scanned scan =>
      cases h
      exact moves_after fun _ hmatches => .restore (.matching hmatches)
  | cleared old => cases h
  | published =>
      obtain ⟨w₁, hwrite, hpair⟩ := Option.map_eq_some_iff.mp h
      cases hpair
      exact .restored hwrite

theorem moves_of_advance (h : advance site w o = some (w', o')) : Moves site w o w' o' := by
  cases o with
  | evict e => exact moves_evict h
  | restore r => exact moves_restore h
  | finalize a =>
      simp only [advance] at h
      split at h
      · cases h
        exact .quit
      · rename_i db hbody
        obtain ⟨hadmitted, rfl⟩ := finalizeBody_eq_ok_iff.mp hbody
        obtain ⟨w₁, hwrite, hpair⟩ := Option.map_eq_some_iff.mp h
        cases hpair
        exact .finalized hadmitted hwrite
  | done => cases h

end Moves

/-! ## Steps -/

theorem commit_eq_some {w w' : World Bytes} {ledger : Jobs.Ledger}
    (h : w.commit ledger = some w') :
    Constraints ledger.db ∧ w' = { w with ledger := ledger } := by
  unfold World.commit at h
  split at h
  · rename_i hconstraints
    exact ⟨hconstraints, (Option.some.inj h).symm⟩
  · cases h

inductive Steps [DecidableEq Bytes] (site : Site Bytes) (w : World Bytes) :
    Action Bytes → World Bytes → Prop
  | startEvict {q generation} : q.problemId = site.problemId → q.code = site.code →
      evictPrecheck w.db q = .ok generation →
      Steps site w (.startEvict q) (w.start (.evict ⟨q, generation, .admitted⟩))
  | startRestore {q store generation staging} : q.problemId = site.problemId →
      q.dest = site.code →
      restorePrepare site.contents site.fromSlice site.root w.db store q = .ok (generation, staging) →
      Steps site w (.startRestore q store)
        (w.start (.restore ⟨q, generation, staging, .prepared⟩))
  | startFinalize {a} : advisoryLockFree w.operations a.problemId = true →
      ensureLatestFencing w.db.jobs a.problemId a.fencingToken = .ok () →
      Steps site w (.startFinalize a) (w.start (.finalize a))
  | advance {i o w' o'} : w.operations[i]? = some o → Moves site w o w' o' →
      Steps site w (.advance i) (w'.setOperation i o')
  | publish {i q generation staging old folder} :
      w.operations[i]? = some (.restore ⟨q, generation, staging, .cleared old⟩) →
      isStaged staging folder = true →
      Steps site w (.publish i folder) ({ w with folder := some folder }.setOperation i
        (.restore ⟨q, generation, staging, .published⟩))
  | giveUp {i o} : w.operations[i]? = some o →
      Steps site w (.giveUp i) ((w.putBack o).setOperation i .done)
  | upload {folder} : dataLockFree w.operations [] = true →
      Steps site w (.upload folder) { w with folder := folder }
  | statement {a ledger} : Jobs.step w.ledger a = some ledger →
      rowsFree w.operations site.problemId w.db ledger.db = true → Constraints ledger.db →
      Steps site w (.statement a) { w with ledger := ledger }
  | touch {problemId} : advisoryLockFree w.operations problemId = true →
      rowsFree w.operations site.problemId w.db
        (touchProblemAccess w.ledger.now problemId w.db) = true →
      Constraints (touchProblemAccess w.ledger.now problemId w.db) →
      Steps site w (.touch problemId)
        { w with ledger := w.ledger.after (touchProblemAccess w.ledger.now problemId w.db) [] }

theorem steps_of_step [DecidableEq Bytes] {w w' : World Bytes} {a : Action Bytes}
    (h : step site w a = some w') : Steps site w a w' := by
  cases a with
  | startEvict q =>
      simp only [step] at h
      split at h
      · rename_i hsite
        split at h
        · cases h
        · rename_i generation hprecheck
          cases h
          exact .startEvict hsite.1 hsite.2 hprecheck
      · cases h
  | startRestore q store =>
      simp only [step] at h
      split at h
      · rename_i hsite
        split at h
        · cases h
        · rename_i generation staging hprepare
          cases h
          exact .startRestore hsite.1 hsite.2 hprepare
      · cases h
  | startFinalize a =>
      simp only [step] at h
      split at h
      · rename_i hfree
        split at h
        · cases h
        · rename_i hfenced
          cases h
          exact .startFinalize hfree hfenced
      · cases h
  | advance i =>
      obtain ⟨o, ho, h⟩ := Option.bind_eq_some_iff.mp h
      obtain ⟨⟨w₁, o'⟩, hadvance, h⟩ := Option.bind_eq_some_iff.mp h
      cases h
      exact .advance ho (moves_of_advance hadvance)
  | publish i folder =>
      simp only [step] at h
      split at h
      · rename_i hcleared
        split at h
        · rename_i hstaged
          cases h
          exact .publish hcleared hstaged
        · cases h
      · cases h
  | giveUp i =>
      obtain ⟨o, ho, h⟩ := Option.bind_eq_some_iff.mp h
      cases h
      exact .giveUp ho
  | upload folder =>
      simp only [step] at h
      split at h
      · rename_i hfree
        cases h
        exact .upload hfree
      · cases h
  | statement a =>
      obtain ⟨ledger, hledger, h⟩ := Option.bind_eq_some_iff.mp h
      split at h
      · rename_i hrows
        obtain ⟨hconstraints, rfl⟩ := commit_eq_some h
        exact .statement hledger hrows hconstraints
      · cases h
  | touch problemId =>
      simp only [step] at h
      split at h
      · rename_i hguard
        rw [Bool.and_eq_true] at hguard
        obtain ⟨hconstraints, rfl⟩ := commit_eq_some h
        exact .touch hguard.1 hguard.2 hconstraints
      · cases h

/-! ## Locks -/

def Operation.advisoryLock (o : Operation Bytes) : Option String := o.transaction.map Prod.fst

structure LocksHeld (operations : List (Operation Bytes)) : Prop where
  advisory : Exclusive Operation.advisoryLock operations
  data : Exclusive Operation.dataLock operations

theorem free_of_advisoryLockFree {operations : List (Operation Bytes)} {problemId : String}
    (h : advisoryLockFree operations problemId = true) :
    Free Operation.advisoryLock operations problemId := by
  intro o ho hlock
  have hall := List.all_eq_true.mp h o ho
  obtain ⟨t, ht, rfl⟩ := Option.map_eq_some_iff.mp hlock
  simp [ht] at hall

theorem free_of_dataLockFree {operations : List (Operation Bytes)} {directory : List String}
    (h : dataLockFree operations directory = true) :
    Free Operation.dataLock operations directory := by
  intro o ho
  exact of_decide_eq_true (List.all_eq_true.mp h o ho)

theorem locksHeld_nil : LocksHeld ([] : List (Operation Bytes)) :=
  ⟨exclusive_nil, exclusive_nil⟩

structure KeepsLocks (w : World Bytes) (o : Operation Bytes) (w' : World Bytes)
    (o' : Operation Bytes) : Prop where
  operations : w'.operations = w.operations
  advisory : ∀ k, o'.advisoryLock = some k →
    o.advisoryLock = some k ∨ Free Operation.advisoryLock w.operations k
  data : ∀ k, o'.dataLock = some k →
    o.dataLock = some k ∨ Free Operation.dataLock w.operations k

theorem Moves.keepsLocks {w w' : World Bytes} {o o' : Operation Bytes}
    (h : Moves site w o w' o') : KeepsLocks w o w' o' := by
  have hdone : ∀ {v : World Bytes}, v.operations = w.operations → KeepsLocks w o v .done := by
    intro v hoperations
    exact ⟨hoperations, nofun, nofun⟩
  have hcommit : ∀ {v : World Bytes} {db : Database}, w.write db = some v → KeepsLocks w o v .done := by
    intro v db hwrite
    obtain ⟨-, rfl⟩ := commit_eq_some hwrite
    exact hdone rfl
  cases h with
  | quit => exact hdone rfl
  | evicted hwrite | restored hwrite => exact hcommit hwrite
  | finalized _ hwrite => exact hcommit hwrite
  | evict h =>
      cases h with
      | lock hfree =>
          refine ⟨rfl, nofun, ?_⟩
          intro k hk
          obtain rfl : [] = k := Option.some.inj hk
          exact .inr (free_of_dataLockFree hfree)
      | scan | matching => exact ⟨rfl, nofun, fun _ hk => .inl hk⟩
      | fence hfree =>
          refine ⟨rfl, ?_, fun _ hk => .inl hk⟩
          intro k hk
          obtain rfl := Option.some.inj hk
          exact .inr (free_of_advisoryLockFree hfree)
      | check | rename => exact ⟨rfl, fun _ hk => .inl hk, fun _ hk => .inl hk⟩
  | restore h =>
      cases h with
      | lock hfree =>
          refine ⟨rfl, nofun, ?_⟩
          intro k hk
          obtain rfl := Option.some.inj hk
          exact .inr (free_of_dataLockFree hfree)
      | fence hfree =>
          refine ⟨rfl, ?_, fun _ hk => .inl hk⟩
          intro k hk
          obtain rfl := Option.some.inj hk
          exact .inr (free_of_advisoryLockFree hfree)
      | ready | vacant | clean | scan | matching =>
          exact ⟨rfl, fun _ hk => .inl hk, fun _ hk => .inl hk⟩
      | clear hphase =>
          rcases hphase with rfl | rfl
          · exact ⟨rfl, fun _ hk => .inl hk, fun _ hk => .inl hk⟩
          · exact ⟨rfl, fun _ hk => .inl hk, fun _ hk => .inl hk⟩

theorem LocksHeld.set {w : World Bytes} (h : LocksHeld w.operations) {i : Nat}
    {o o' : Operation Bytes} (ho : w.operations[i]? = some o)
    (hadvisory : ∀ k, o'.advisoryLock = some k →
      o.advisoryLock = some k ∨ Free Operation.advisoryLock w.operations k)
    (hdata : ∀ k, o'.dataLock = some k →
      o.dataLock = some k ∨ Free Operation.dataLock w.operations k) :
    LocksHeld (w.setOperation i o').operations :=
  ⟨h.advisory.set ho hadvisory, h.data.set ho hdata⟩

theorem World.putBack_operations (w : World Bytes) (o : Operation Bytes) :
    (w.putBack o).operations = w.operations := by
  unfold World.putBack
  split <;> rfl

theorem World.putBack_ledger (w : World Bytes) (o : Operation Bytes) :
    (w.putBack o).ledger = w.ledger := by
  unfold World.putBack
  split <;> rfl

theorem locksHeld_step [DecidableEq Bytes] {w w' : World Bytes} {a : Action Bytes}
    (h : LocksHeld w.operations) (hstep : Steps site w a w') : LocksHeld w'.operations := by
  cases hstep with
  | startEvict | startRestore =>
      exact ⟨h.advisory.append nofun, h.data.append nofun⟩
  | startFinalize hfree =>
      refine ⟨h.advisory.append ?_, h.data.append nofun⟩
      intro k hk
      obtain rfl := Option.some.inj hk
      exact free_of_advisoryLockFree hfree
  | advance ho hmove =>
      have hkeeps := hmove.keepsLocks
      rw [← hkeeps.operations] at ho h
      apply h.set ho
      · rw [hkeeps.operations]
        exact hkeeps.advisory
      · rw [hkeeps.operations]
        exact hkeeps.data
  | publish ho => exact LocksHeld.set h ho (fun _ hk => .inl hk) fun _ hk => .inl hk
  | @giveUp i o ho =>
      have hback := w.putBack_operations o
      rw [← hback] at ho h
      exact LocksHeld.set h ho nofun nofun
  | upload | statement | touch => exact h

end ExternalStorage.Publication
