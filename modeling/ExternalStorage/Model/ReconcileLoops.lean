import ExternalStorage.Library.Loops
import ExternalStorage.Model.Reconciliation
import Mathlib.Logic.Relation

/-!
# The loops of a pass

`apply_reconcile_plan` as `reconcile.rs` has it: its three loops over the plan, with what the
pass finds of each folder.  They take the steps of `advancePass`.
-/

namespace ExternalStorage.Model

open Library.Loops Library.Table Relation

/-- What the calls of a pass find of a folder, one after the other. -/
structure FolderReads where
  /-- `tree_fingerprint`, in `cached_usage_matches`. -/
  checked : Except AppError String
  before : Except AppError String
  scan : Except AppError ScanResult
  /-- In `cache_stable_scan`. -/
  after : Except AppError String
  initYml : Option String

inductive PassError where
  | folder (e : AppError)
  | database
  deriving DecidableEq, Repr

inductive Visit where
  | reused | scanned
  /-- An orphan that cannot be scanned. -/
  | passedOver
  deriving DecidableEq, Repr

structure ReconcileResult where
  discovered : Int
  missing : Int
  orphans : Int
  mirrors : Int
  orphanCodes : List String
  missingCodes : List String
  deriving DecidableEq, Repr

def cachedUsageMatches (reads : FolderReads) (acc : Accounts) (item : Item) :
    Except PassError Bool :=
  match (cachedTree item.code acc.cache).bind TreeCacheRow.usageFingerprint with
  | none => .ok false
  | some saved =>
      match reads.checked with
      | .error e => .error (.folder e)
      | .ok current => .ok (saved = current && usageIsCurrent acc.db item.code item.externalId)

def cacheStableScan (reads : FolderReads) (acc : Accounts) (item : Item) (before : String)
    (scan : ScanResult) : Except PassError Accounts :=
  match reads.after with
  | .error e => .error (.folder e)
  | .ok after =>
      if before = after then
        let canonical := canonicalDownloadPath reads.initYml scan.files
        .ok { acc with cache := cacheTree item.code before canonical true acc.cache }
      else
        .ok acc

/-- The body of the loops behind `cached_usage_matches`. -/
def scanItem (now : Timestamp) (reads : FolderReads) (acc : Accounts) (item : Item) :
    Accounts × Except PassError Visit :=
  let acc := { acc with cache := invalidateTreeCache item.code acc.cache }
  match reads.before with
  | .error e => (acc, .error (.folder e))
  | .ok before =>
      match reads.scan with
      | .error e => (acc, if item.externalId.isSome then .error (.folder e) else .ok .passedOver)
      | .ok scan =>
          if accountable item acc.db then
            let acc := { acc with db := accountUsage now item scan acc.db }
            match cacheStableScan reads acc item before scan with
            | .error e => (acc, .error e)
            | .ok acc => (acc, .ok .scanned)
          else
            (acc, .error .database)

def visitItem (now : Timestamp) (reads : FolderReads) (acc : Accounts) (item : Item) :
    Accounts × Except PassError Visit :=
  match cachedUsageMatches reads acc item with
  | .error e => (acc, .error e)
  | .ok true => (acc, .ok .reused)
  | .ok false => scanItem now reads acc item

def CatalogProblem.item (p : CatalogProblem) : Item := ⟨p.code, some p.externalId⟩

section Loops

variable (now : Timestamp) (reads : String → FolderReads)

def reconcileKnown (acc : Accounts) (p : CatalogProblem) : Accounts × Except PassError Visit :=
  let acc := { acc with db := DataPlane.deleteOrphanUsage p.code acc.db }
  match DataPlane.deleteOrphanProblem p.code acc.db with
  | none => (acc, .error .database)
  | some db => visitItem now (reads p.code) { acc with db := db } p.item

def reconcileMissing (acc : Accounts) (p : CatalogProblem) : Accounts × Except PassError Unit :=
  if acc.db.problems.any fun q => q.externalId = p.externalId then
    let usage := DataPlane.upsertMissingUsage now p.externalId acc.db
    ({ acc with db := { acc.db with problemUsage := usage } }, .ok ())
  else
    (acc, .error .database)

def reconcileOrphan (acc : Accounts) (code : String) : Accounts × Except PassError Visit :=
  visitItem now (reads code) acc ⟨code, none⟩

def applyReconcilePlan (acc : Accounts) (plan : ReconcilePlan) :
    Accounts × Except PassError ReconcileResult :=
  match tryEach (reconcileKnown now reads) acc plan.knownPresent with
  | (acc, .error e) => (acc, .error e)
  | (acc, .ok ()) =>
      match tryEach (reconcileMissing now) acc plan.missingKnown with
      | (acc, .error e) => (acc, .error e)
      | (acc, .ok ()) =>
          match tryEach (reconcileOrphan now reads) acc plan.orphans with
          | (acc, .error e) => (acc, .error e)
          | (acc, .ok ()) =>
              (acc, .ok {
                discovered := plan.knownPresent.length
                missing := plan.missingKnown.length
                orphans := plan.orphans.length
                mirrors := 0
                orphanCodes := plan.orphans
                missingCodes := plan.missingKnown.map CatalogProblem.code })

end Loops

/-! ## Step by step -/

def readsDisk (reads : String → FolderReads) : Pass → Disk
  | .applying _ stage =>
      { directories := []
        scan := fun code => (reads code).scan
        fingerprint := fun code =>
          match stage with
          | .cached _ => (reads code).checked
          | .invalidated => (reads code).before
          | _ => (reads code).after
        initYml := fun code => (reads code).initYml }
  | .listed _ | .planned _ =>
      ⟨[], fun code => (reads code).scan, fun code => (reads code).before,
        fun code => (reads code).initYml⟩

def PassStep (now : Timestamp) (reads : String → FolderReads) (s t : Accounts × Pass) : Prop :=
  advancePass now (readsDisk reads s.2) s.1 s.2 = some t

def PassSteps (now : Timestamp) (reads : String → FolderReads) :
    Accounts × Pass → Accounts × Pass → Prop :=
  ReflTransGen (PassStep now reads)

def FailsWith (now : Timestamp) (reads : String → FolderReads) (s : Accounts × Pass)
    (acc : Accounts) : Prop :=
  ∃ plan stage, plan ≠ ⟨[], [], []⟩ ∧ PassSteps now reads s (acc, .applying plan stage) ∧
    advancePass now (readsDisk reads (.applying plan stage)) acc (.applying plan stage) = none

def VisitSteps (now : Timestamp) (reads : String → FolderReads) (s : Accounts × Pass)
    (rest : ReconcilePlan) : Accounts × Except PassError Visit → Prop
  | (acc, .ok _) => PassSteps now reads s (acc, .applying rest rest.firstStage)
  | (acc, .error _) => FailsWith now reads s acc

section Steps

variable {now : Timestamp} {reads : String → FolderReads}

theorem FailsWith.after {s t : Accounts × Pass} {acc : Accounts}
    (hsteps : PassSteps now reads s t) (h : FailsWith now reads t acc) :
    FailsWith now reads s acc := by
  obtain ⟨plan, stage, hplan, hrest, hended⟩ := h
  exact ⟨plan, stage, hplan, hsteps.trans hrest, hended⟩

theorem VisitSteps.after {s t : Accounts × Pass} {rest : ReconcilePlan}
    {r : Accounts × Except PassError Visit} (hsteps : PassSteps now reads s t)
    (h : VisitSteps now reads t rest r) : VisitSteps now reads s rest r := by
  obtain ⟨acc, visit | e⟩ := r
  · exact FailsWith.after hsteps h
  · exact hsteps.trans h

/-- The first folder of the plan, and what is left behind it. -/
structure Begins (plan rest : ReconcilePlan) (item : Item) : Prop where
  ne : plan ≠ ⟨[], [], []⟩
  advance : ∀ now disk acc stage, advancePass now disk acc (.applying plan stage) =
    (advanceItem now disk acc item stage).map fun (acc, next) => (acc, continuePass plan rest next)

theorem begins_known (p : CatalogProblem) (known missing : List CatalogProblem)
    (orphans : List String) :
    Begins ⟨p :: known, missing, orphans⟩ ⟨known, missing, orphans⟩ p.item :=
  ⟨nofun, fun _ _ _ _ => rfl⟩

theorem begins_orphan (code : String) (orphans : List String) :
    Begins ⟨[], [], code :: orphans⟩ ⟨[], [], orphans⟩ ⟨code, none⟩ :=
  ⟨nofun, fun _ _ _ _ => rfl⟩

section Item

variable {plan rest : ReconcilePlan} {item : Item} {acc acc' : Accounts} {stage : Stage}
  {r : Accounts × Except PassError Visit}

theorem Begins.next (h : Begins plan rest item) (stage' : Stage)
    (hstep : advanceItem now (readsDisk reads (.applying plan stage)) acc item stage =
      some (acc', some stage'))
    (hrest : VisitSteps now reads (acc', .applying plan stage') rest r) :
    VisitSteps now reads (acc, .applying plan stage) rest r := by
  refine VisitSteps.after (.single ?_) hrest
  rw [PassStep, h.advance, hstep]
  rfl

theorem Begins.look (h : Begins plan rest item) (stage' : Stage)
    (hstep : advanceItem now (readsDisk reads (.applying plan stage)) acc item stage =
      some (acc, some stage'))
    (hrest : VisitSteps now reads (acc, .applying plan stage') rest r) :
    VisitSteps now reads (acc, .applying plan stage) rest r :=
  h.next stage' hstep hrest

theorem Begins.done (h : Begins plan rest item) {visit : Visit}
    (hstep : advanceItem now (readsDisk reads (.applying plan stage)) acc item stage =
      some (acc', none)) :
    VisitSteps now reads (acc, .applying plan stage) rest (acc', .ok visit) := by
  refine ReflTransGen.single ?_
  rw [PassStep, h.advance, hstep]
  rfl

theorem Begins.fails (h : Begins plan rest item) {e : PassError}
    (hstep : advanceItem now (readsDisk reads (.applying plan stage)) acc item stage = none) :
    VisitSteps now reads (acc, .applying plan stage) rest (acc, .error e) := by
  refine ⟨plan, stage, h.ne, .refl, ?_⟩
  rw [h.advance, hstep]
  rfl

theorem scanItem_steps (h : Begins plan rest item) :
    VisitSteps now reads (acc, .applying plan .outdated) rest
      (scanItem now (reads item.code) acc item) := by
  refine h.next .invalidated rfl ?_
  unfold scanItem
  dsimp only
  cases hbefore : (reads item.code).before with
  | error e =>
      apply h.fails
      simp only [advanceItem, readsDisk, hbefore]
  | ok before =>
      refine h.look (.fingerprinted before) ?_ ?_
      · simp only [advanceItem, readsDisk, hbefore]
      cases hscan : (reads item.code).scan with
      | error e =>
          cases hid : item.externalId with
          | none =>
              apply h.done
              simp [advanceItem, readsDisk, hscan, hid]
          | some id =>
              apply h.fails
              simp [advanceItem, readsDisk, hscan, hid]
      | ok scan =>
          refine h.look (.scanned before scan) ?_ ?_
          · simp only [advanceItem, readsDisk, hscan]
          dsimp only
          split
          · rename_i haccountable
            refine h.next (.accounted before scan) (if_pos haccountable) ?_
            unfold cacheStableScan
            cases hafter : (reads item.code).after with
            | error e =>
                apply h.fails
                simp only [advanceItem, readsDisk, hafter]
            | ok after =>
                by_cases hstable : before = after
                · simp only [hstable, if_true]
                  refine h.look (.stable after scan) ?_ (h.done rfl)
                  simp only [advanceItem, readsDisk, hafter, if_true]
                · simp only [hstable, if_false]
                  apply h.done
                  simp only [advanceItem, readsDisk, hafter, hstable, if_false]
          · rename_i haccountable
            exact h.fails (if_neg haccountable)

variable (now reads acc) in
theorem visitItem_steps (h : Begins plan rest item) :
    VisitSteps now reads (acc, .applying plan .projected) rest
      (visitItem now (reads item.code) acc item) := by
  unfold visitItem cachedUsageMatches
  cases hsaved : (cachedTree item.code acc.cache).bind TreeCacheRow.usageFingerprint with
  | none =>
      refine h.look .outdated ?_ (scanItem_steps h)
      simp only [advanceItem, hsaved]
  | some saved =>
      refine h.look (.cached saved) ?_ ?_
      · simp only [advanceItem, hsaved]
      cases hchecked : (reads item.code).checked with
      | error e =>
          apply h.fails
          simp only [advanceItem, readsDisk, hchecked]
      | ok current =>
          by_cases hsame : saved = current
          · refine h.look (.unchanged saved) ?_ ?_
            · simp only [advanceItem, readsDisk, hchecked, hsame, if_true]
            cases hcurrent : usageIsCurrent acc.db item.code item.externalId with
            | true =>
                simp only [hsame, decide_true, Bool.and_true]
                apply h.done
                simp only [advanceItem, hcurrent, if_true]
            | false =>
                simp only [Bool.and_false]
                refine h.look .outdated ?_ (scanItem_steps h)
                simp only [advanceItem, hcurrent, Bool.false_eq_true, if_false]
          · simp only [hsame, decide_false, Bool.false_and]
            refine h.look .outdated ?_ (scanItem_steps h)
            simp only [advanceItem, readsDisk, hchecked, hsame, if_false]

end Item

variable (now reads) in
theorem reconcileKnown_steps (p : CatalogProblem) (known missing : List CatalogProblem)
    (orphans : List String) (acc : Accounts) :
    VisitSteps now reads (acc, .applying ⟨p :: known, missing, orphans⟩ .opened)
      ⟨known, missing, orphans⟩ (reconcileKnown now reads acc p) := by
  have hbegins := begins_known p known missing orphans
  refine hbegins.next .unprojected rfl ?_
  unfold reconcileKnown
  dsimp only
  cases hdb : DataPlane.deleteOrphanProblem p.code (DataPlane.deleteOrphanUsage p.code acc.db) with
  | none =>
      apply hbegins.fails
      simp only [advanceItem, CatalogProblem.item, hdb, Option.map_none]
  | some db =>
      refine hbegins.next .projected ?_ (visitItem_steps now reads _ hbegins)
      simp only [advanceItem, CatalogProblem.item, hdb, Option.map_some]

def LoopSteps (now : Timestamp) (reads : String → FolderReads) (s : Accounts × Pass)
    (rest : ReconcilePlan) : Accounts × Except PassError Unit → Prop
  | (acc, .ok ()) => PassSteps now reads s (acc, .applying rest rest.firstStage)
  | (acc, .error _) => FailsWith now reads s acc

theorem tryEach_steps {α β : Type*} {body : Accounts → α → Accounts × Except PassError β}
    (planOf : List α → ReconcilePlan)
    (hgo : ∀ a as acc acc' b, body acc a = (acc', .ok b) →
      PassSteps now reads (acc, .applying (planOf (a :: as)) (planOf (a :: as)).firstStage)
        (acc', .applying (planOf as) (planOf as).firstStage))
    (hfail : ∀ a as acc acc' e, body acc a = (acc', .error e) →
      FailsWith now reads
        (acc, .applying (planOf (a :: as)) (planOf (a :: as)).firstStage) acc') :
    ∀ as acc, LoopSteps now reads (acc, .applying (planOf as) (planOf as).firstStage) (planOf [])
      (tryEach body acc as) := by
  intro as
  induction as with
  | nil => exact fun acc => ReflTransGen.refl
  | cons a as ih =>
      intro acc
      rcases hbody : body acc a with ⟨acc', e | b⟩
      · rw [tryEach_of_error hbody]
        exact hfail a as acc acc' e hbody
      · rw [tryEach_of_ok hbody]
        have hrest := ih acc'
        have hstep := hgo a as acc acc' b hbody
        rcases hloop : tryEach body acc' as with ⟨acc'', e | u⟩
        · rw [hloop] at hrest
          exact FailsWith.after hstep hrest
        · rw [hloop] at hrest
          exact hstep.trans hrest

variable (now reads) in
theorem known_steps (missing : List CatalogProblem) (orphans : List String)
    (known : List CatalogProblem) (acc : Accounts) :
    LoopSteps now reads
      (acc, .applying ⟨known, missing, orphans⟩ (ReconcilePlan.mk known missing orphans).firstStage)
      ⟨[], missing, orphans⟩ (tryEach (reconcileKnown now reads) acc known) := by
  refine tryEach_steps (fun known => ⟨known, missing, orphans⟩) ?_ ?_ known acc
  · intro p known acc acc' visit hbody
    have hsteps := reconcileKnown_steps now reads p known missing orphans acc
    rw [hbody] at hsteps
    exact hsteps
  · intro p known acc acc' e hbody
    have hsteps := reconcileKnown_steps now reads p known missing orphans acc
    rw [hbody] at hsteps
    exact hsteps

variable (now reads) in
theorem missing_steps (orphans : List String) (missing : List CatalogProblem) (acc : Accounts) :
    LoopSteps now reads
      (acc, .applying ⟨[], missing, orphans⟩ (ReconcilePlan.mk [] missing orphans).firstStage)
      ⟨[], [], orphans⟩ (tryEach (reconcileMissing now) acc missing) := by
  refine tryEach_steps (fun missing => ⟨[], missing, orphans⟩) ?_ ?_ missing acc
  · intro p missing acc acc' u hbody
    refine ReflTransGen.single ?_
    unfold reconcileMissing at hbody
    split at hbody
    · rename_i hmem
      cases hbody
      exact if_pos hmem
    · cases hbody
  · intro p missing acc acc' e hbody
    unfold reconcileMissing at hbody
    split at hbody
    · cases hbody
    · rename_i hmem
      cases hbody
      exact ⟨⟨[], p :: missing, orphans⟩, _, nofun, .refl, if_neg hmem⟩

variable (now reads) in
theorem orphan_steps (orphans : List String) (acc : Accounts) :
    LoopSteps now reads (acc, .applying ⟨[], [], orphans⟩ .projected) ⟨[], [], []⟩
      (tryEach (reconcileOrphan now reads) acc orphans) := by
  refine tryEach_steps (fun orphans => ⟨[], [], orphans⟩) ?_ ?_ orphans acc
  · intro code orphans acc acc' visit hbody
    have hsteps := visitItem_steps now reads acc
      (begins_orphan code orphans)
    rw [show visitItem now (reads code) acc ⟨code, none⟩ = (acc', .ok visit) from hbody] at hsteps
    exact hsteps
  · intro code orphans acc acc' e hbody
    have hsteps := visitItem_steps now reads acc
      (begins_orphan code orphans)
    rw [show visitItem now (reads code) acc ⟨code, none⟩ = (acc', .error e) from hbody] at hsteps
    exact hsteps

variable (now reads) in
theorem applyReconcilePlan_steps (acc : Accounts) (plan : ReconcilePlan) :
    match applyReconcilePlan now reads acc plan with
    | (acc', .ok _) =>
        PassSteps now reads (acc, .applying plan plan.firstStage)
          (acc', .applying ⟨[], [], []⟩ .projected)
    | (acc', .error _) => FailsWith now reads (acc, .applying plan plan.firstStage) acc' := by
  obtain ⟨known, missing, orphans⟩ := plan
  unfold applyReconcilePlan
  have hknown := known_steps now reads missing orphans known acc
  dsimp only
  rcases hrun : tryEach (reconcileKnown now reads) acc known with ⟨acc₁, e | u⟩
  · rw [hrun] at hknown
    exact hknown
  · rw [hrun] at hknown
    have hmissing := missing_steps now reads orphans missing acc₁
    dsimp only
    rcases hrun : tryEach (reconcileMissing now) acc₁ missing with ⟨acc₂, e | u⟩
    · rw [hrun] at hmissing
      exact FailsWith.after hknown hmissing
    · rw [hrun] at hmissing
      have horphans := orphan_steps now reads orphans acc₂
      dsimp only
      rcases hrun : tryEach (reconcileOrphan now reads) acc₂ orphans with ⟨acc₃, e | u⟩
      · rw [hrun] at horphans
        exact FailsWith.after hknown (FailsWith.after hmissing horphans)
      · rw [hrun] at horphans
        exact (ReflTransGen.trans hknown hmissing).trans horphans

end Steps

end ExternalStorage.Model
