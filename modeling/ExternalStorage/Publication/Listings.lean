import ExternalStorage.Catalog.Backups
import ExternalStorage.Model.Reconciliation
import ExternalStorage.Publication.EnsureReady

/-!
# Listings that restores overtake

A reconciliation pass lists the folders once and marks the problems without one missing when
it comes to them.  It does not look again: a restore that commits in between is marked
missing, and the bytes that the scan of its folder has counted are set to zero.
-/

namespace ExternalStorage.Publication

open ExternalStorage.Model Library.Exclusion Library.Runs Library.Table

variable {Bytes : Type} {site : Site Bytes}

/-! ## The machine -/

structure ListedPass where
  pass : Pass
  /-- A restore has committed since the pass has listed the folders, and its folder is still
  there: history the program does not keep. -/
  overtaken : Bool := false
  deriving DecidableEq, Repr

structure Reconciling (Bytes : Type) where
  world : World Bytes
  cache : List TreeCacheRow := []
  passes : List ListedPass := []
  /-- A restore has committed `present`, and the folder has existed ever since: history as
  well. -/
  restored : Bool := false

def isListed (code : String) : Bool :=
  pathNames code = [code] && !".".toList.isPrefixOf code.toList

def Site.disk (site : Site Bytes) (folder : Option (Folder Bytes)) (others : Disk) : Disk where
  directories :=
    (others.directories.filter fun name => name ≠ site.code) ++
      if folder.isSome && pathNames site.code = [site.code] then [site.code] else []
  scan code :=
    if code = site.code then
      scanProblemFolder site.contents site.root code (folder.map Folder.walk)
    else
      others.scan code
  fingerprint code :=
    if code = site.code && folder.isNone then .error (.problemFolderMissing code)
    else others.fingerprint code
  initYml := others.initYml

def KeepsUsage (problemId : String) (usage usage' : List ProblemUsageRow) : Prop :=
  ∀ u' ∈ usage', u'.problemId = problemId → ∃ u ∈ usage, u.problemId = problemId ∧
    u.allocatedBytes = u'.allocatedBytes ∧ u.auxiliaryBytes = u'.auxiliaryBytes ∧
      (u'.localStatus = .missing → u.localStatus = .missing)

def KeepsCode (problemId : String) (problems problems' : List ProblemRow) : Prop :=
  ∀ p' ∈ problems', p'.externalId = problemId →
    ∃ p ∈ problems, p.externalId = problemId ∧ p.code = p'.code

instance (problemId : String) (usage usage' : List ProblemUsageRow) :
    Decidable (KeepsUsage problemId usage usage') :=
  inferInstanceAs (Decidable (∀ u' ∈ usage', u'.problemId = problemId → ∃ u ∈ usage,
    u.problemId = problemId ∧ u.allocatedBytes = u'.allocatedBytes ∧
      u.auxiliaryBytes = u'.auxiliaryBytes ∧
        (u'.localStatus = .missing → u.localStatus = .missing)))

instance (problemId : String) (problems problems' : List ProblemRow) :
    Decidable (KeepsCode problemId problems problems') :=
  inferInstanceAs (Decidable (∀ p' ∈ problems', p'.externalId = problemId →
    ∃ p ∈ problems, p.externalId = problemId ∧ p.code = p'.code))

inductive PassAction (Bytes : Type) where
  /-- A pass lists the folders. -/
  | list (others : Disk)
  /-- It takes its next step. -/
  | pass (i : Nat) (others : Disk)
  /-- An operation on the folder, up to the commit of a restore. -/
  | operation (a : Action Bytes)
  | commitRestore (i : Nat)
  /-- Any other statement, or the clock: none marks the problem missing. -/
  | other (ledger : Jobs.Ledger)

def Reconciling.operated (s : Reconciling Bytes) (w : World Bytes) : Reconciling Bytes :=
  { s with
    world := w, restored := s.restored && w.folder.isSome
    passes := s.passes.map fun r => { r with overtaken := r.overtaken && w.folder.isSome } }

def passStep [DecidableEq Bytes] (site : Site Bytes) (s : Reconciling Bytes) :
    PassAction Bytes → Option (Reconciling Bytes)
  | .list others =>
      let directories := (site.disk s.world.folder others).directories
      some { s with passes := s.passes ++ [⟨.listed (listProblemCodes directories), false⟩] }
  | .pass i others =>
      match s.passes[i]? with
      | none => none
      | some r =>
          match advancePass s.world.ledger.now (site.disk s.world.folder others)
              ⟨s.world.db, s.cache⟩ r.pass with
          | none => none
          | some (acc, pass) =>
              if rowsFree s.world.operations site.problemId s.world.db acc.db then
                (s.world.write acc.db).map fun w =>
                  { s with
                    world := w, cache := acc.cache, passes := s.passes.set i { r with pass := pass } }
              else
                none
  | .operation a =>
      if a.onFolder s.world.operations then
        (step site s.world a).map fun w => s.operated w
      else
        none
  | .commitRestore i =>
      match s.world.operations[i]? with
      | some (.restore ⟨q, _, _, .published⟩) =>
          (s.world.write (restored s.world.ledger.now q s.world.db)).map fun w =>
            { s with
              world := w.setOperation i .done, restored := w.folder.isSome
              passes := s.passes.map fun r => { r with overtaken := true } }
      | _ => none
  | .other ledger =>
      if KeepsUsage site.problemId s.world.db.problemUsage ledger.db.problemUsage ∧
          KeepsCode site.problemId s.world.db.problems ledger.db.problems ∧
          rowsFree s.world.operations site.problemId s.world.db ledger.db = true then
        (s.world.commit ledger).map fun w => { s with world := w }
      else
        none

/-- A pass marks the problem missing only where no restore whose folder is there has overtaken
it. -/
def InTime (site : Site Bytes) (s : Reconciling Bytes) (a : PassAction Bytes)
    (_ : Reconciling Bytes) : Prop :=
  match a with
  | .pass i _ => ∀ r ∈ s.passes[i]?, marksMissing site.problemId r.pass = true → r.overtaken = false
  | _ => True

def PassAction.scan? (s : Reconciling Bytes) : PassAction Bytes → Option ScanResult
  | .pass i _ => s.passes[i]?.bind fun r => (writtenUsage r.pass).map Prod.snd
  | _ => none

/-- The bytes are those of a row before, or of the scan that the step writes. -/
def Counted (scan : Option ScanResult) (usage : List ProblemUsageRow) (u' : ProblemUsageRow) : Prop :=
  (∃ u ∈ usage, u.problemId = u'.problemId ∧ u.allocatedBytes = u'.allocatedBytes ∧
    u.auxiliaryBytes = u'.auxiliaryBytes) ∨
  ∃ found ∈ scan, u'.allocatedBytes = asI64 found.allocatedBytes ∧
    u'.auxiliaryBytes = asI64 found.auxiliaryBytes

instance (site : Site Bytes) (s t : Reconciling Bytes) :
    (a : PassAction Bytes) → Decidable (InTime site s a t)
  | .pass i _ => inferInstanceAs (Decidable (∀ r ∈ s.passes[i]?,
      marksMissing site.problemId r.pass = true → r.overtaken = false))
  | .list _ | .operation _ | .commitRestore _ | .other _ => isTrue trivial

instance (scan : Option ScanResult) (usage : List ProblemUsageRow) (u' : ProblemUsageRow) :
    Decidable (Counted scan usage u') :=
  inferInstanceAs (Decidable ((∃ u ∈ usage, u.problemId = u'.problemId ∧
    u.allocatedBytes = u'.allocatedBytes ∧ u.auxiliaryBytes = u'.auxiliaryBytes) ∨
    ∃ found ∈ scan, u'.allocatedBytes = asI64 found.allocatedBytes ∧
      u'.auxiliaryBytes = asI64 found.auxiliaryBytes))

/-- While a restored folder is there, its problem is not missing, and no step sets its bytes to
anything but what a scan has counted. -/
def RestoreStands (site : Site Bytes) (s : Reconciling Bytes) (a : PassAction Bytes)
    (t : Reconciling Bytes) : Prop :=
  t.restored = true → ∀ u' ∈ t.world.db.problemUsage, u'.problemId = site.problemId →
    u'.localStatus ≠ .missing ∧ Counted (a.scan? s) s.world.db.problemUsage u'

instance (site : Site Bytes) (s : Reconciling Bytes) (a : PassAction Bytes)
    (t : Reconciling Bytes) : Decidable (RestoreStands site s a t) :=
  inferInstanceAs (Decidable (t.restored = true → ∀ u' ∈ t.world.db.problemUsage,
    u'.problemId = site.problemId →
      u'.localStatus ≠ .missing ∧ Counted (a.scan? s) s.world.db.problemUsage u'))

/-! ## Usage -/

section Usage

variable {problemId : String} {usage usage' : List ProblemUsageRow} {scan : Option ScanResult}

def NotMissing (problemId : String) (usage : List ProblemUsageRow) : Prop :=
  ∀ u ∈ usage, u.problemId = problemId → u.localStatus ≠ .missing

def WritesCounted (problemId : String) (scan : Option ScanResult)
    (usage usage' : List ProblemUsageRow) : Prop :=
  ∀ u' ∈ usage', u'.problemId = problemId →
    (NotMissing problemId usage → u'.localStatus ≠ .missing) ∧ Counted scan usage u'

/-- The relation of a row to what a statement leaves of it. -/
def KeepsCopy (u u' : ProblemUsageRow) : Prop :=
  u.allocatedBytes = u'.allocatedBytes ∧ u.auxiliaryBytes = u'.auxiliaryBytes ∧
    (u'.localStatus = .missing → u.localStatus = .missing)

theorem keepsCopy_refl (u : ProblemUsageRow) : KeepsCopy u u := ⟨rfl, rfl, fun h => h⟩

theorem keepsUsage_refl (problemId : String) (usage : List ProblemUsageRow) :
    KeepsUsage problemId usage usage :=
  keepsRows_refl keepsCopy_refl

theorem KeepsUsage.writesCounted (h : KeepsUsage problemId usage usage') :
    WritesCounted problemId scan usage usage' := by
  intro u' hu' hown
  obtain ⟨u, hu, hid, hallocated, hauxiliary, hstatus⟩ := h u' hu' hown
  refine ⟨fun hpresent hmissing => hpresent u hu hid (hstatus hmissing), .inl ?_⟩
  exact ⟨u, hu, hid.trans hown.symm, hallocated, hauxiliary⟩

theorem writesCounted_upsertProblemUsage {now : Timestamp} {id : String} {found : ScanResult}
    {localStatus : LocalStatus} (hstatus : localStatus ≠ .missing) :
    WritesCounted problemId (some found) usage
      (DataPlane.upsertProblemUsage now id found localStatus usage) := by
  intro u' hu' hown
  have hscanned : ∀ u : ProblemUsageRow,
      (NotMissing problemId usage →
        (DataPlane.scannedUsage now found localStatus u).localStatus ≠ .missing) ∧
      Counted (some found) usage (DataPlane.scannedUsage now found localStatus u) := by
    intro u
    refine ⟨fun _ => by simpa using hstatus, .inr ⟨found, rfl, ?_, ?_⟩⟩
    · rw [DataPlane.scannedUsage_allocatedBytes]
    · rw [DataPlane.scannedUsage_auxiliaryBytes]
  rcases mem_upsertOn.mp hu' with ⟨hold, -⟩ | ⟨u, -, -, rfl⟩ | ⟨rfl, -⟩
  · exact ⟨fun hpresent => hpresent u' hold hown, .inl ⟨u', hold, rfl, rfl, rfl⟩⟩
  · exact hscanned u
  · exact hscanned _

end Usage

/-! ## What a pass writes -/

section Passes

variable {problemId : String} {now : Timestamp} {db db' : Database}

/-- The problem has the code of its folder, and no folder's orphan has its id. -/
structure Named (site : Site Bytes) (problems : List ProblemRow) : Prop where
  code : ∀ p ∈ problems, p.externalId = site.problemId → p.code = site.code
  orphan : ∀ code, site.problemId = orphanId code → code = site.code

theorem Named.keep {problems problems' : List ProblemRow} (h : Named site problems)
    (hkeeps : KeepsCode site.problemId problems problems') : Named site problems' := by
  refine ⟨?_, h.orphan⟩
  intro p' hp' hid
  obtain ⟨p, hp, hpid, hcode⟩ := hkeeps p' hp' hid
  rw [← hcode]
  exact h.code p hp hpid

theorem keepsCode_of_subset {problems problems' : List ProblemRow} (h : problems' ⊆ problems) :
    KeepsCode problemId problems problems' :=
  fun p' hp' hid => ⟨p', h hp', hid, rfl⟩

theorem upsertDiscoveredUsage_writes {code : String} {found : ScanResult} :
    WritesCounted problemId (some found) db.problemUsage
      (DataPlane.upsertDiscoveredUsage now code found db).problemUsage := by
  rcases upsertDiscoveredUsage_cases now code found db with
    ⟨hdb, -⟩ | ⟨problems, owner, localStatus, -, -, -, hstatus, hdb⟩
  · rw [hdb]
    exact (keepsUsage_refl _ _).writesCounted
  · rw [hdb]
    apply writesCounted_upsertProblemUsage
    rcases hstatus with rfl | rfl
    · exact LocalStatus.noConfusion
    · exact LocalStatus.noConfusion

theorem upsertDiscoveredUsage_named {code : String} {found : ScanResult}
    (h : Named site db.problems) :
    Named site (DataPlane.upsertDiscoveredUsage now code found db).problems := by
  rcases upsertDiscoveredUsage_cases now code found db with
    ⟨hdb, -⟩ | ⟨problems, owner, localStatus, hproblems, -, -, -, hdb⟩
  · rw [hdb]
    exact h
  · rw [hdb]
    rcases hproblems with rfl | ⟨-, orphan, hid, hcode, rfl⟩
    · exact h
    · refine ⟨?_, h.orphan⟩
      intro p hp hown
      rcases List.mem_append.mp hp with hold | hnew
      · exact h.code p hold hown
      · obtain rfl := List.mem_singleton.mp hnew
        exact hcode.trans (h.orphan code (hown.symm.trans hid))

theorem passMoves_writes {disk : Disk} {acc acc' : Accounts} {pass pass' : Pass}
    (h : PassMoves now disk acc pass acc' pass')
    (hspares : marksMissing problemId pass = false) :
    WritesCounted problemId ((writtenUsage pass).map Prod.snd) acc.db.problemUsage acc'.db.problemUsage := by
  rcases h.rows hspares keepsCopy_refl (fun u g => ⟨rfl, rfl, fun h => h⟩) with
    ⟨-, hkeeps⟩ | ⟨item, scan, hwritten, hdb⟩
  · exact KeepsUsage.writesCounted hkeeps
  · rw [hwritten, hdb]
    unfold accountUsage
    split
    · exact writesCounted_upsertProblemUsage LocalStatus.noConfusion
    · exact upsertDiscoveredUsage_writes

theorem passMoves_named {disk : Disk} {acc acc' : Accounts} {pass pass' : Pass}
    (h : PassMoves now disk acc pass acc' pass') (hnamed : Named site acc.db.problems) :
    Named site acc'.db.problems := by
  cases h with
  | plan | heal | missing => exact hnamed
  | item _ _ _ hitem =>
      rcases advanceItem_db hitem with ⟨before, scan, -, hdb⟩ | ⟨-, hdb | hdb | hdb⟩
      · rw [hdb]
        unfold accountUsage
        split
        · exact hnamed
        · exact upsertDiscoveredUsage_named hnamed
      · rw [hdb]
        exact hnamed
      · rw [hdb]
        exact hnamed
      · exact hnamed.keep (keepsCode_of_subset (deleteOrphanProblem_subset hdb))

def Sees (site : Site Bytes) : Pass → Prop
  | .listed folders => site.code ∈ folders
  | .planned plan | .applying plan _ => ∀ p ∈ plan.missingKnown, p.externalId ≠ site.problemId

theorem buildReconcilePlan_sees {folders : List String} (hnamed : Named site db.problems)
    (hseen : site.code ∈ folders) :
    ∀ p ∈ (buildReconcilePlan folders (listCatalogProblems db)).missingKnown,
      p.externalId ≠ site.problemId := by
  intro p hp hid
  have hp := (List.mem_insertionSort _).mp hp
  obtain ⟨hactive, habsent⟩ := List.mem_filter.mp hp
  obtain ⟨row, hrow, rfl⟩ := List.mem_map.mp (List.mem_filter.mp hactive).1
  have hcode : row.code = site.code := hnamed.code row (List.mem_filter.mp hrow).1 hid
  exact of_decide_eq_true habsent (hcode ▸ hseen)

theorem passMoves_sees {disk : Disk} {acc acc' : Accounts} {pass pass' : Pass}
    (h : PassMoves now disk acc pass acc' pass') (hnamed : Named site acc.db.problems)
    (hsees : Sees site pass) : Sees site pass' := by
  have hcontinue : ∀ {plan rest : ReconcilePlan} {next : Option Stage},
      (∀ p ∈ plan.missingKnown, p.externalId ≠ site.problemId) →
      (∀ p ∈ rest.missingKnown, p.externalId ≠ site.problemId) →
      Sees site (continuePass plan rest next) := by
    intro plan rest next hplan hrest
    cases next with
    | none => exact hrest
    | some stage => exact hplan
  cases h with
  | plan => exact buildReconcilePlan_sees hnamed hsees
  | heal => exact hsees
  | item _ hrest _ _ => exact hcontinue hsees (hrest ▸ hsees)
  | missing => exact hcontinue hsees fun p hp => hsees p (List.mem_cons_of_mem _ hp)

theorem Sees.not_marksMissing {pass : Pass} (h : Sees site pass) :
    marksMissing site.problemId pass = false := by
  match pass, h with
  | .applying ⟨[], p :: _, _⟩ _, h => exact decide_eq_false (h p List.mem_cons_self)
  | .applying ⟨_ :: _, _, _⟩ _, _ | .applying ⟨[], [], _⟩ _, _ | .listed _, _ | .planned _, _ => rfl

end Passes

/-! ## Operations -/

section Operations

variable {w w' : World Bytes} {o o' : Operation Bytes} {problemId : String}

def Operation.isOn (problemId : String) : Operation Bytes → Prop
  | .evict e => e.request.problemId = problemId
  | .restore r => r.request.problemId = problemId
  | .finalize _ | .done => True

def Operation.isRemoval : Operation Bytes → Bool
  | .evict ⟨_, _, .renamed _⟩ => true
  | _ => false

theorem Moves.isOn (h : Moves site w o w' o') (hon : o.isOn problemId) : o'.isOn problemId := by
  cases h with
  | quit | evicted | restored | finalized => trivial
  | evict | restore => exact hon

theorem Moves.not_isRemoval (h : Moves site w o w' o') (hfolder : w'.folder.isSome = true) :
    o'.isRemoval = false := by
  cases h with
  | quit | evicted | restored | finalized | restore => rfl
  | evict h =>
      cases h with
      | lock | scan | matching | fence | check => rfl
      | rename => cases hfolder

/-- Only an eviction that has taken the folder away marks the problem missing. -/
theorem Moves.keepsUsage (h : Moves site w o w' o') (hkept : o.isRemoval = false) :
    KeepsUsage problemId w.db.problemUsage w'.db.problemUsage := by
  have hsame : w'.db = w.db → KeepsUsage problemId w.db.problemUsage w'.db.problemUsage := by
    intro hdb
    rw [hdb]
    exact keepsUsage_refl _ _
  cases h with
  | quit => exact hsame rfl
  | evicted => cases hkept
  | evict h => cases h <;> exact hsame rfl
  | restore h => cases h <;> exact hsame rfl
  | restored hwrite =>
      rw [(write_eq_some hwrite).1]
      exact keepsRows_updateWhere keepsCopy_refl fun u => ⟨rfl, rfl, rfl, fun h => by cases h⟩
  | finalized _ hwrite =>
      rw [(write_eq_some hwrite).1]
      exact keepsRows_updateWhere keepsCopy_refl fun u => ⟨rfl, rfl, rfl, fun h => h⟩

theorem finalized_keepsCode {now : Timestamp} {a : FinalizeArgs} {db : Database} :
    KeepsCode problemId db.problems (finalized now a db).problems := by
  unfold finalized
  dsimp only
  split
  · exact keepsCode_of_subset fun p hp => hp
  · intro p' hp' hid
    obtain ⟨p, hp, rfl⟩ := mem_updateWhere.mp hp'
    refine ⟨p, hp, ?_⟩
    split at hid
    · rename_i hclean
      rw [if_pos hclean]
      exact ⟨hid, rfl⟩
    · rename_i hdirty
      rw [if_neg hdirty]
      exact ⟨hid, rfl⟩

theorem Moves.keepsCode (h : Moves site w o w' o') :
    KeepsCode problemId w.db.problems w'.db.problems := by
  have hsame : w'.db.problems = w.db.problems →
      KeepsCode problemId w.db.problems w'.db.problems := by
    intro hproblems
    rw [hproblems]
    exact keepsCode_of_subset fun p hp => hp
  cases h with
  | quit => exact hsame rfl
  | evict h => cases h <;> exact hsame rfl
  | restore h => cases h <;> exact hsame rfl
  | evicted hwrite | restored hwrite =>
      apply hsame
      rw [(write_eq_some hwrite).1]
      rfl
  | finalized _ hwrite =>
      rw [(write_eq_some hwrite).1]
      exact finalized_keepsCode

end Operations

/-! ## The run -/

section Run

variable {s t : Reconciling Bytes}

/-- While a restored folder is there, its problem is not missing, no eviction has taken it
away, and the passes that no restore has overtaken have seen it. -/
structure ListingInv (site : Site Bytes) (s : Reconciling Bytes) : Prop where
  locks : LocksHeld s.world.operations
  own : ∀ o ∈ s.world.operations, o.isOn site.problemId
  named : Named site s.world.db.problems
  folder : s.restored = true → s.world.folder.isSome = true
  present : s.restored = true → NotMissing site.problemId s.world.db.problemUsage
  kept : s.restored = true → ∀ o ∈ s.world.operations, o.isRemoval = false
  sees : s.restored = true → ∀ r ∈ s.passes, r.overtaken = false → Sees site r.pass

def Counts (site : Site Bytes) (s : Reconciling Bytes) (a : PassAction Bytes)
    (t : Reconciling Bytes) : Prop :=
  t.restored = true →
    WritesCounted site.problemId (a.scan? s) s.world.db.problemUsage t.world.db.problemUsage

theorem NotMissing.write {problemId : String} {scan : Option ScanResult}
    {usage usage' : List ProblemUsageRow} (h : NotMissing problemId usage)
    (hwrites : WritesCounted problemId scan usage usage') : NotMissing problemId usage' :=
  fun u' hu' hid => (hwrites u' hu' hid).1 h

theorem mem_listProblemCodes {others : Disk} {folder : Option (Folder Bytes)}
    (hlisted : isListed site.code = true) (hfolder : folder.isSome = true) :
    site.code ∈ listProblemCodes (site.disk folder others).directories := by
  obtain ⟨hnames, hvisible⟩ := (Bool.and_eq_true _ _).mp hlisted
  refine (List.mem_insertionSort _).mpr (List.mem_filter.mpr ⟨?_, hvisible⟩)
  apply List.mem_append_right
  rw [hfolder, hnames]
  exact List.mem_singleton_self _

theorem ListingInv.operate {w : World Bytes} (h : ListingInv site s)
    (hlocks : LocksHeld w.operations) (hown : ∀ o ∈ w.operations, o.isOn site.problemId)
    (hcode : KeepsCode site.problemId s.world.db.problems w.db.problems)
    (hkept : s.restored = true → w.folder.isSome = true →
      KeepsUsage site.problemId s.world.db.problemUsage w.db.problemUsage ∧
        ∀ o ∈ w.operations, o.isRemoval = false) (a : PassAction Bytes) :
    ListingInv site (s.operated w) ∧ Counts site s a (s.operated w) := by
  have hboth : ∀ {x y : Bool}, (x && y) = true → x = true ∧ y = true :=
    fun h => (Bool.and_eq_true _ _).mp h
  refine ⟨⟨hlocks, hown, h.named.keep hcode, fun hr => (hboth hr).2, ?_, ?_, ?_⟩, ?_⟩
  · intro hr
    have hwrites : WritesCounted site.problemId none s.world.db.problemUsage w.db.problemUsage :=
      (hkept (hboth hr).1 (hboth hr).2).1.writesCounted
    exact (h.present (hboth hr).1).write hwrites
  · intro hr
    exact (hkept (hboth hr).1 (hboth hr).2).2
  · intro hr r hmem hovertaken
    obtain ⟨r₀, hr₀, rfl⟩ := List.mem_map.mp hmem
    dsimp only at hovertaken
    rw [(hboth hr).2, Bool.and_true] at hovertaken
    exact h.sees (hboth hr).1 r₀ hr₀ hovertaken
  · intro hr
    exact (hkept (hboth hr).1 (hboth hr).2).1.writesCounted

variable [DecidableEq Bytes]

theorem listingInv_operation {a : Action Bytes} (h : ListingInv site s)
    (hstep : passStep site s (.operation a) = some t) :
    ListingInv site t ∧ Counts site s (.operation a) t := by
  simp only [passStep] at hstep
  split at hstep
  · rename_i hfolder
    obtain ⟨w, hw, rfl⟩ := Option.map_eq_some_iff.mp hstep
    have hsteps := steps_of_step hw
    have hlocks := locksHeld_step h.locks hsteps
    have hsame : ∀ {db : Database}, KeepsUsage site.problemId db.problemUsage db.problemUsage ∧
        KeepsCode site.problemId db.problems db.problems :=
      ⟨keepsUsage_refl _ _, keepsCode_of_subset fun p hp => hp⟩
    have hstart : ∀ {o : Operation Bytes}, o.isOn site.problemId → o.isRemoval = false →
        ((∀ o' ∈ (s.world.start o).operations, o'.isOn site.problemId) ∧
          (s.restored = true → (s.world.start o).folder.isSome = true →
            KeepsUsage site.problemId s.world.db.problemUsage s.world.db.problemUsage ∧
              ∀ o' ∈ (s.world.start o).operations, o'.isRemoval = false)) := by
      intro o hon hremoval
      refine ⟨?_, fun hr _ => ⟨hsame.1, ?_⟩⟩
      · intro o' ho'
        rcases List.mem_append.mp ho' with hold | hnew
        · exact h.own o' hold
        · exact List.mem_singleton.mp hnew ▸ hon
      · intro o' ho'
        rcases List.mem_append.mp ho' with hold | hnew
        · exact h.kept hr o' hold
        · exact List.mem_singleton.mp hnew ▸ hremoval
    cases hsteps with
    | startEvict hid =>
        obtain ⟨hown, hkept⟩ := hstart (o := .evict ⟨_, _, .admitted⟩) hid rfl
        exact h.operate hlocks hown hsame.2 hkept _
    | startRestore hid =>
        obtain ⟨hown, hkept⟩ := hstart (o := .restore ⟨_, _, _, .prepared⟩) hid rfl
        exact h.operate hlocks hown hsame.2 hkept _
    | startFinalize =>
        obtain ⟨hown, hkept⟩ := hstart (o := .finalize _) trivial rfl
        exact h.operate hlocks hown hsame.2 hkept _
    | @advance i o w₁ o₁ ho hmove =>
        have hmem := List.mem_of_getElem? ho
        have hoperations := hmove.keepsLocks.operations
        refine h.operate hlocks ?_ hmove.keepsCode (fun hr hsome => ⟨?_, ?_⟩) _
        · intro o' ho'
          rcases mem_operations_set ho' with rfl | hold
          · exact hmove.isOn (h.own o hmem)
          · exact h.own o' (hoperations ▸ hold)
        · exact hmove.keepsUsage (h.kept hr o hmem)
        · intro o' ho'
          rcases mem_operations_set ho' with rfl | hold
          · exact hmove.not_isRemoval hsome
          · exact h.kept hr o' (hoperations ▸ hold)
    | publish ho =>
        have hown := h.own _ (List.mem_of_getElem? ho)
        refine h.operate hlocks ?_ hsame.2 (fun hr _ => ⟨hsame.1, ?_⟩) _
        · intro o' ho'
          rcases mem_operations_set ho' with rfl | hold
          · exact hown
          · exact h.own o' hold
        · intro o' ho'
          rcases mem_operations_set ho' with rfl | hold
          · rfl
          · exact h.kept hr o' hold
    | @giveUp i o ho =>
        have hdb : (s.world.putBack o).db = s.world.db :=
          congrArg Jobs.Ledger.db (s.world.putBack_ledger o)
        have hoperations := s.world.putBack_operations o
        refine h.operate hlocks ?_ ?_ (fun hr _ => ⟨?_, ?_⟩) _
        · intro o' ho'
          rcases mem_operations_set ho' with rfl | hold
          · trivial
          · exact h.own o' (hoperations ▸ hold)
        · show KeepsCode _ _ (s.world.putBack o).db.problems
          rw [hdb]
          exact hsame.2
        · show KeepsUsage _ _ (s.world.putBack o).db.problemUsage
          rw [hdb]
          exact hsame.1
        · intro o' ho'
          rcases mem_operations_set ho' with rfl | hold
          · rfl
          · exact h.kept hr o' (hoperations ▸ hold)
    | upload => exact h.operate hlocks h.own hsame.2 (fun hr _ => ⟨hsame.1, h.kept hr⟩) _
    | statement => cases hfolder
    | touch => cases hfolder
  · cases hstep

theorem listingInv_commitRestore {i : Nat} (h : ListingInv site s)
    (hstep : passStep site s (.commitRestore i) = some t) :
    ListingInv site t ∧ Counts site s (.commitRestore i) t := by
  simp only [passStep] at hstep
  split at hstep
  · rename_i q generation staging hrestore
    obtain ⟨w, hwrite, rfl⟩ := Option.map_eq_some_iff.mp hstep
    have hmove : Moves site s.world (.restore ⟨q, generation, staging, .published⟩) w .done :=
      .restored hwrite
    have hmem := List.mem_of_getElem? hrestore
    have hid : q.problemId = site.problemId := h.own _ hmem
    obtain ⟨hdb, hoperations, -⟩ := write_eq_some hwrite
    -- The transaction of the restore excludes that of an eviction.
    have hkept : ∀ o ∈ s.world.operations, o.isRemoval = false := by
      intro o ho
      by_contra hremoval
      match o, ho, hremoval with
      | .evict ⟨q', generation', .renamed folder⟩, ho, _ =>
          have hown : q'.problemId = site.problemId := h.own _ ho
          have heq := h.locks.advisory.eq hrestore (k := site.problemId) (congrArg some hid) ho
            (congrArg some hown)
          cases heq
    refine ⟨⟨?_, ?_, h.named.keep hmove.keepsCode, fun hr => hr, ?_, ?_, ?_⟩, ?_⟩
    · rw [← hoperations] at hrestore
      exact LocksHeld.set (hoperations ▸ h.locks) hrestore nofun nofun
    · intro o ho
      rcases mem_operations_set ho with rfl | hold
      · trivial
      · exact h.own o (hoperations ▸ hold)
    · intro _ u' hu' hown
      have hu' : u' ∈ (restored s.world.ledger.now q s.world.db).problemUsage := hdb ▸ hu'
      obtain ⟨u, hu, rfl⟩ := mem_updateWhere.mp hu'
      split
      · exact LocalStatus.noConfusion
      · rename_i hother
        rw [if_neg hother] at hown
        exact absurd (hown.trans hid.symm) (by simpa using hother)
    · intro _ o ho
      rcases mem_operations_set ho with rfl | hold
      · rfl
      · exact hkept o (hoperations ▸ hold)
    · intro _ r hr hovertaken
      obtain ⟨r₀, -, rfl⟩ := List.mem_map.mp hr
      cases hovertaken
    · intro _
      exact (hmove.keepsUsage rfl).writesCounted
  · cases hstep

theorem listingInv_pass {i : Nat} {others : Disk} (h : ListingInv site s)
    (hordered : InTime site s (.pass i others) t)
    (hstep : passStep site s (.pass i others) = some t) :
    ListingInv site t ∧ Counts site s (.pass i others) t := by
  simp only [passStep] at hstep
  split at hstep
  · cases hstep
  · rename_i r hr
    split at hstep
    · cases hstep
    · rename_i acc pass hadvance
      split at hstep
      · obtain ⟨w, hwrite, rfl⟩ := Option.map_eq_some_iff.mp hstep
        have hmove := passMoves_of_advance hadvance
        obtain ⟨hdb, hoperations, hfolder⟩ := write_eq_some hwrite
        have hmem := List.mem_of_getElem? hr
        have hspares : s.restored = true → marksMissing site.problemId r.pass = false := by
          intro hrestored
          by_contra hmarks
          have hmarks := (Bool.not_eq_false _).mp hmarks
          have hsees := h.sees hrestored r hmem (hordered r hr hmarks)
          rw [hsees.not_marksMissing] at hmarks
          cases hmarks
        have hwrites : s.restored = true → WritesCounted site.problemId
            ((writtenUsage r.pass).map Prod.snd)
            s.world.db.problemUsage w.db.problemUsage := by
          intro hrestored
          rw [hdb]
          exact passMoves_writes hmove (hspares hrestored)
        refine ⟨⟨?_, ?_, ?_, ?_, ?_, ?_, ?_⟩, ?_⟩
        · exact hoperations ▸ h.locks
        · exact hoperations ▸ h.own
        · show Named site w.db.problems
          rw [hdb]
          exact passMoves_named hmove h.named
        · intro hrestored
          exact hfolder ▸ h.folder hrestored
        · intro hrestored
          exact (h.present hrestored).write (hwrites hrestored)
        · exact hoperations ▸ h.kept
        · intro hrestored r' hr' hovertaken
          rcases List.mem_or_eq_of_mem_set hr' with hold | rfl
          · exact h.sees hrestored r' hold hovertaken
          · exact passMoves_sees hmove h.named (h.sees hrestored r hmem hovertaken)
        · intro hrestored
          have hscan : (PassAction.pass i others : PassAction Bytes).scan? s =
              (writtenUsage r.pass).map Prod.snd := by
            simp [PassAction.scan?, hr]
          rw [hscan]
          exact hwrites hrestored
      · cases hstep

theorem listingInv_step {a : PassAction Bytes} (hlisted : isListed site.code = true)
    (h : ListingInv site s) (hordered : InTime site s a t) (hstep : passStep site s a = some t) :
    ListingInv site t ∧ Counts site s a t := by
  cases a with
  | operation a => exact listingInv_operation h hstep
  | commitRestore i => exact listingInv_commitRestore h hstep
  | pass i others => exact listingInv_pass h hordered hstep
  | list others =>
      cases hstep
      refine ⟨⟨h.locks, h.own, h.named, h.folder, h.present, h.kept, ?_⟩, ?_⟩
      · intro hrestored r hr hovertaken
        rcases List.mem_append.mp hr with hold | hnew
        · exact h.sees hrestored r hold hovertaken
        · rw [List.mem_singleton.mp hnew]
          exact mem_listProblemCodes hlisted (h.folder hrestored)
      · intro _
        exact (keepsUsage_refl _ _).writesCounted
  | other ledger =>
      simp only [passStep] at hstep
      split at hstep
      · rename_i hguard
        obtain ⟨w, hcommit, rfl⟩ := Option.map_eq_some_iff.mp hstep
        obtain ⟨-, rfl⟩ := commit_eq_some hcommit
        have hwrites : ∀ {scan : Option ScanResult}, WritesCounted site.problemId scan
            s.world.db.problemUsage ledger.db.problemUsage := hguard.1.writesCounted
        refine ⟨⟨h.locks, h.own, h.named.keep hguard.2.1, h.folder, ?_, h.kept, h.sees⟩, ?_⟩
        · intro hrestored
          exact (h.present hrestored).write (@hwrites none)
        · intro _
          exact hwrites
      · cases hstep

/-- Where the listing shows the folder's name, and along every run in which no pass marks the
problem missing that a restore has overtaken, a restore stands as long as its folder does. -/
theorem stale_listing_spares_restore {w : World Bytes} {acts : List (PassAction Bytes)}
    (hlisted : isListed site.code = true) (hnamed : Named site w.db.problems)
    (hidle : w.operations = [])
    (hordered : EveryStep (passStep site) (InTime site) { world := w } acts) :
    EveryStep (passStep site) (RestoreStands site) { world := w } acts := by
  have hinit : ListingInv site ({ world := w } : Reconciling Bytes) := by
    refine ⟨?_, ?_, hnamed, ?_, ?_, ?_, ?_⟩
    · show LocksHeld w.operations
      rw [hidle]
      exact locksHeld_nil
    · intro o ho
      rw [show ({ world := w } : Reconciling Bytes).world.operations = [] from hidle] at ho
      cases ho
    all_goals
      intro hrestored
      cases hrestored
  apply everyStep_of_invariant (I := ListingInv site) (C := InTime site)
    (fun _ _ _ h hordered hstep => (listingInv_step hlisted h hordered hstep).1) ?_ hinit hordered
  intro s a t h hordered hstep hrestored u' hu' hid
  obtain ⟨hinv, hcounts⟩ := listingInv_step hlisted h hordered hstep
  exact ⟨hinv.present hrestored u' hu' hid, (hcounts hrestored u' hu' hid).2⟩

end Run

/-! Problem 7 is backed up and evicted. -/

def archiveSite : Site Catalog.SampleBytes where
  contents := Catalog.sampleContents
  fromSlice := Catalog.sampleFromSlice
  root := "/problems"
  problemId := "7"
  code := "sums"

def evictedWorld : World Catalog.SampleBytes where
  ledger := {
    now := 20
    db := {
      problems := [Jobs.sampleProblem "7" "sums" .present]
      problemUsage := [{ unbackedUsage with
        logicalBytes := 5, allocatedBytes := 512, archiveBytes := 5, fileCount := 1
        localStatus := .missing, r2Status := .ready, snapshotGeneration := some 1 }]
      snapshots := [{ verifyingRow with state := .ready }]
      jobs := [heldJob 1 "restore" .restore (some "7") 1] } }
  folder := none

def restoredFolder : Folder Catalog.SampleBytes where
  walk := [⟨[.ofText "sums.zip"], .file 0 (.text "tests"), ⟨1, 3, 1, 1, 33188⟩⟩]
  same := by
    intro e he e' he' i x i' x' hx hx' _
    rw [List.mem_singleton.mp he] at hx
    rw [List.mem_singleton.mp he'] at hx'
    cases hx
    cases hx'
    rfl

def emptyDisk : Disk where
  directories := []
  scan code := .error (.problemFolderMissing code)
  fingerprint _ := .ok "tree"
  initYml _ := none

def restoreInFull : List (PassAction Catalog.SampleBytes) :=
  .operation (.startRestore ⟨"7", 1, 1, "sums"⟩ (Catalog.archiveStore ["7"])) ::
    List.replicate 5 (.operation (.advance 0)) ++ [.operation (.publish 0 restoredFolder), .commitRestore 0]

def passes (i n : Nat) : List (PassAction Catalog.SampleBytes) :=
  List.replicate n (.pass i emptyDisk)

/-- A pass marks the problem missing, a restore brings it back, and the next pass counts it. -/
def restoreBetweenPasses : List (PassAction Catalog.SampleBytes) :=
  .list emptyDisk :: passes 0 3 ++ restoreInFull ++ .list emptyDisk :: passes 1 11

theorem stale_listing_spares_restore_between :
    (exec (passStep archiveSite) { world := evictedWorld } restoreBetweenPasses).isSome ∧
      EveryStep (passStep archiveSite) (RestoreStands archiveSite) { world := evictedWorld }
        restoreBetweenPasses := by
  have ⟨hruns, hordered⟩ :
      (exec (passStep archiveSite) { world := evictedWorld } restoreBetweenPasses).isSome = true ∧
        EveryStep (passStep archiveSite) (InTime archiveSite) { world := evictedWorld }
          restoreBetweenPasses := by
    decide +kernel
  refine ⟨hruns, stale_listing_spares_restore (by decide +kernel) ?_ rfl hordered⟩
  refine ⟨by decide, ?_⟩
  intro code hcode
  have hlist : "7".toList = ("orphan:" ++ code).toList := congrArg String.toList hcode
  simp at hlist

/-- The pass has listed the folders before the restore, and marks the problem missing after it. -/
theorem restored_problem_marked_missing :
    (exec (passStep archiveSite) { world := evictedWorld }
        (.list emptyDisk :: restoreInFull ++ passes 0 3)).isSome ∧
      ¬ EveryStep (passStep archiveSite) (RestoreStands archiveSite) { world := evictedWorld }
        (.list emptyDisk :: restoreInFull ++ passes 0 3) := by
  decide +kernel

end ExternalStorage.Publication
