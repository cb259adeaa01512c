import ExternalStorage.Model.Usage
import ExternalStorage.Publication.Fencing

/-!
# The access fence

`ensure-ready` stamps `last_accessed_at` before it looks for the folder, and an eviction
with a cutoff compares the stamp under the advisory lock of the problem.  The stamp is the
begin of its transaction, not the commit: a transaction that has begun early and waited
long puts the stamp back.
-/

namespace ExternalStorage.Publication

open ExternalStorage.Model Library.Runs Library.Table

variable {Bytes : Type} {site : Site Bytes}

/-! ## The machine -/

/-- The calls of `ensure-ready` are told apart by their stamps. -/
structure Accesses (Bytes : Type) where
  world : World Bytes
  /-- Calls whose stamp has been committed: history the program does not keep. -/
  touched : List Timestamp := []
  /-- Of these, the calls whose readiness check has found the folder. -/
  found : List Timestamp := []

def Tracked (problemId : String) (usage : List ProblemUsageRow) : Prop :=
  ∃ u ∈ usage, u.problemId = problemId

def KeepsAccess (problemId : String) (usage usage' : List ProblemUsageRow) : Prop :=
  (∀ u' ∈ usage', u'.problemId = problemId →
    ∃ u ∈ usage, u.problemId = problemId ∧ u.lastAccessedAt = u'.lastAccessedAt) ∧
  (Tracked problemId usage → Tracked problemId usage')

instance (problemId : String) (usage : List ProblemUsageRow) : Decidable (Tracked problemId usage) :=
  inferInstanceAs (Decidable (∃ u ∈ usage, u.problemId = problemId))

instance (problemId : String) (usage usage' : List ProblemUsageRow) :
    Decidable (KeepsAccess problemId usage usage') :=
  inferInstanceAs (Decidable ((∀ u' ∈ usage', u'.problemId = problemId →
    ∃ u ∈ usage, u.problemId = problemId ∧ u.lastAccessedAt = u'.lastAccessedAt) ∧
      (Tracked problemId usage → Tracked problemId usage')))

inductive AccessAction (Bytes : Type) where
  /-- `touchProblemAccess` commits, whose transaction has begun at `began`. -/
  | touch (began : Timestamp)
  /-- The readiness check of the call with this stamp finds the folder. -/
  | check (stamp : Timestamp)
  /-- An operation on the folder, up to the commit of a restore. -/
  | operation (a : Action Bytes)
  | commitRestore (i : Nat) (began : Timestamp)
  /-- `markLocalPresentForJob`. -/
  | markLocalPresent (began : Timestamp) (generation : Option Int)
  /-- Any other statement, or the clock: none writes `last_accessed_at`. -/
  | other (ledger : Jobs.Ledger)

/-- The restore that `advance i` would commit has an action of its own, as have the
statements. -/
def Action.onFolder (operations : List (Operation Bytes)) : Action Bytes → Bool
  | .advance i =>
      match operations[i]? with
      | some (.restore ⟨_, _, _, .published⟩) => false
      | _ => true
  | .statement _ | .touch _ => false
  | .startEvict _ | .startRestore .. | .startFinalize _ | .publish .. | .giveUp _ | .upload _ => true

def touchedUsage (site : Site Bytes) (w : World Bytes) (began : Timestamp)
    (generation : Option Int) : Database :=
  { w.db with
    problemUsage := markLocalPresent began site.problemId generation w.db.problemUsage }

def accessStep [DecidableEq Bytes] (site : Site Bytes) (s : Accesses Bytes) :
    AccessAction Bytes → Option (Accesses Bytes)
  | .touch began =>
      let db := touchProblemAccess began site.problemId s.world.db
      if began ≤ s.world.ledger.now ∧ advisoryLockFree s.world.operations site.problemId = true ∧
          rowsFree s.world.operations site.problemId s.world.db db = true then
        (s.world.write db).map fun w => { s with world := w, touched := s.touched ++ [began] }
      else
        none
  | .check stamp =>
      if stamp ∈ s.touched ∧ s.world.folder.isSome = true then
        some { s with found := s.found ++ [stamp] }
      else
        none
  | .operation a =>
      if a.onFolder s.world.operations then
        (step site s.world a).map fun w => { s with world := w }
      else
        none
  | .commitRestore i began =>
      match s.world.operations[i]? with
      | some (.restore ⟨q, _, _, .published⟩) =>
          if began ≤ s.world.ledger.now then
            (s.world.write (restored began q s.world.db)).map fun w =>
              { s with world := w.setOperation i .done }
          else
            none
      | _ => none
  | .markLocalPresent began generation =>
      let db := touchedUsage site s.world began generation
      if began ≤ s.world.ledger.now ∧
          rowsFree s.world.operations site.problemId s.world.db db = true then
        (s.world.write db).map fun w => { s with world := w }
      else
        none
  | .other ledger =>
      if KeepsAccess site.problemId s.world.db.problemUsage ledger.db.problemUsage ∧
          rowsFree s.world.operations site.problemId s.world.db ledger.db = true then
        (s.world.commit ledger).map fun w => { s with world := w }
      else
        none

def Operation.hasCutoff (cutoff : Timestamp) : Operation Bytes → Bool
  | .evict e => e.request.idleBefore = some cutoff
  | _ => false

/-- An eviction with this cutoff takes the folder away. -/
def Evicts (cutoff : Timestamp) (s : Accesses Bytes) (a : AccessAction Bytes)
    (s' : Accesses Bytes) : Prop :=
  match a with
  | .operation (.advance i) => s.world.operations[i]?.any (Operation.hasCutoff cutoff) = true ∧
      s.world.folder.isSome = true ∧ s'.world.folder.isSome = false
  | _ => False

/-- No eviction whose cutoff lies before the stamp of a call takes the folder away that the
call has found. -/
def Spares (cutoff : Timestamp) (s : Accesses Bytes) (a : AccessAction Bytes)
    (s' : Accesses Bytes) : Prop :=
  (∃ stamp ∈ s.found, cutoff < stamp) → ¬ Evicts cutoff s a s'

def Accessed (problemId : String) (cutoff : Timestamp) (usage : List ProblemUsageRow) : Prop :=
  ∀ u ∈ usage, u.problemId = problemId → ∃ stamp ∈ u.lastAccessedAt, cutoff < stamp

/-- A transaction that has begun at or before the cutoff finds no stamp beyond it. -/
def StampsInOrder (site : Site Bytes) (cutoff : Timestamp) (s : Accesses Bytes)
    (a : AccessAction Bytes) (_ : Accesses Bytes) : Prop :=
  match a with
  | .touch began | .commitRestore _ began | .markLocalPresent began _ =>
      began ≤ cutoff → ∀ u ∈ s.world.db.problemUsage, u.problemId = site.problemId →
        ∀ stamp ∈ u.lastAccessedAt, stamp ≤ cutoff
  | _ => True

instance (cutoff : Timestamp) (s s' : Accesses Bytes) :
    (a : AccessAction Bytes) → Decidable (Evicts cutoff s a s')
  | .operation (.advance _) => inferInstanceAs (Decidable (_ ∧ _ ∧ _))
  | .operation (.startEvict _) | .operation (.startRestore ..) | .operation (.startFinalize _)
  | .operation (.publish ..) | .operation (.giveUp _) | .operation (.upload _)
  | .operation (.statement _) | .operation (.touch _) | .touch _ | .check _ | .commitRestore ..
  | .markLocalPresent .. | .other _ => isFalse fun h => h

instance (cutoff : Timestamp) (s s' : Accesses Bytes) (a : AccessAction Bytes) :
    Decidable (Spares cutoff s a s') :=
  inferInstanceAs (Decidable ((∃ stamp ∈ s.found, cutoff < stamp) → ¬ Evicts cutoff s a s'))

instance (site : Site Bytes) (cutoff : Timestamp) (s s' : Accesses Bytes) :
    (a : AccessAction Bytes) → Decidable (StampsInOrder site cutoff s a s')
  | .touch began | .commitRestore _ began | .markLocalPresent began _ =>
      inferInstanceAs (Decidable (began ≤ cutoff → ∀ u ∈ s.world.db.problemUsage,
        u.problemId = site.problemId → ∀ stamp ∈ u.lastAccessedAt, stamp ≤ cutoff))
  | .check _ | .operation _ | .other _ => isTrue trivial

/-! ## Stamps -/

section Stamps

variable {problemId : String} {cutoff : Timestamp} {usage usage' : List ProblemUsageRow}

theorem keepsAccess_refl (problemId : String) (usage : List ProblemUsageRow) :
    KeepsAccess problemId usage usage :=
  ⟨fun u hu hid => ⟨u, hu, hid, rfl⟩, fun h => h⟩

theorem tracked_updateWhere {q : ProblemUsageRow → Bool} {f : ProblemUsageRow → ProblemUsageRow}
    (hf : ∀ u, (f u).problemId = u.problemId) (h : Tracked problemId usage) :
    Tracked problemId (updateWhere q f usage) := by
  obtain ⟨u, hu, hid⟩ := h
  refine ⟨_, mem_updateWhere.mpr ⟨u, hu, rfl⟩, ?_⟩
  split
  · exact (hf u).trans hid
  · exact hid

theorem keepsAccess_updateWhere {q : ProblemUsageRow → Bool} {f : ProblemUsageRow → ProblemUsageRow}
    (hf : ∀ u, (f u).problemId = u.problemId ∧ (f u).lastAccessedAt = u.lastAccessedAt) :
    KeepsAccess problemId usage (updateWhere q f usage) := by
  refine ⟨?_, tracked_updateWhere fun u => (hf u).1⟩
  intro u' hu' hid
  obtain ⟨u, hu, rfl⟩ := mem_updateWhere.mp hu'
  by_cases hq : q u = true
  · rw [if_pos hq] at hid ⊢
    exact ⟨u, hu, (hf u).1.symm.trans hid, (hf u).2.symm⟩
  · rw [if_neg hq] at hid ⊢
    exact ⟨u, hu, hid, rfl⟩

theorem Accessed.keep (h : Accessed problemId cutoff usage)
    (hkeeps : KeepsAccess problemId usage usage') : Accessed problemId cutoff usage' := by
  intro u' hu' hid
  obtain ⟨u, hu, huid, hstamp⟩ := hkeeps.1 u' hu' hid
  rw [← hstamp]
  exact h u hu huid

/-- A transaction in order that finds a stamp beyond the cutoff has begun beyond it. -/
theorem Accessed.lt_began (h : Accessed problemId cutoff usage) (htracked : Tracked problemId usage)
    {began : Timestamp} (hordered : began ≤ cutoff → ∀ u ∈ usage, u.problemId = problemId →
      ∀ stamp ∈ u.lastAccessedAt, stamp ≤ cutoff) : cutoff < began := by
  by_contra hle
  have hle : began ≤ cutoff := not_lt.mp hle
  obtain ⟨u, hu, hid⟩ := htracked
  obtain ⟨stamp, hstamp, hlt⟩ := h u hu hid
  exact absurd (hordered hle u hu hid stamp hstamp) (not_le.mpr hlt)

theorem accessed_updateWhere {began : Timestamp} (hbegan : cutoff < began)
    {f : ProblemUsageRow → ProblemUsageRow} (hf : ∀ u, (f u).lastAccessedAt = some began) :
    Accessed problemId cutoff (updateWhere (fun u => u.problemId = problemId) f usage) := by
  intro u' hu' hid
  obtain ⟨u, hu, rfl⟩ := mem_updateWhere.mp hu'
  by_cases hown : u.problemId = problemId
  · rw [if_pos (decide_eq_true hown)]
    exact ⟨began, hf u, hbegan⟩
  · rw [if_neg (by simpa using hown)] at hid
    exact absurd hid hown

theorem accessed_markLocalPresent {began : Timestamp} (hbegan : cutoff < began)
    (generation : Option Int) :
    Accessed problemId cutoff (markLocalPresent began problemId generation usage) := by
  intro u' hu' hid
  rcases mem_upsertOn.mp hu' with ⟨-, hother⟩ | ⟨u, -, -, rfl⟩ | ⟨rfl, -⟩
  · exact absurd hid hother
  · exact ⟨began, rfl, hbegan⟩
  · exact ⟨began, rfl, hbegan⟩

theorem tracked_markLocalPresent {began : Timestamp} (generation : Option Int)
    (h : Tracked problemId usage) :
    Tracked problemId (markLocalPresent began problemId generation usage) := by
  obtain ⟨u, hu, hid⟩ := h
  exact ⟨_, mem_upsertOn.mpr (.inr (.inl ⟨u, hu, hid, rfl⟩)), hid⟩

theorem evictChecks_accessed {db : Database} {q : EvictRequest} {generation : Int}
    (haccessed : Accessed q.problemId cutoff db.problemUsage)
    (hok : evictChecks db q generation = .ok ()) : q.idleBefore ≠ some cutoff := by
  unfold evictChecks at hok
  split at hok
  · rename_i u p hu hp
    obtain ⟨-, hok⟩ := check_eq_ok.mp hok
    obtain ⟨-, hok⟩ := check_eq_ok.mp hok
    rw [refuseIf_eq_ok] at hok
    intro hcutoff
    have hid : u.problemId = q.problemId := by
      have hfound := List.find?_some hu
      simp only [Bool.and_eq_true, decide_eq_true_eq] at hfound
      exact hfound.1
    obtain ⟨stamp, hstamp, hlt⟩ := haccessed u (List.mem_of_find?_eq_some hu) hid
    exact hok ⟨cutoff, hcutoff, stamp, hstamp, hlt⟩
  · cases hok

end Stamps

/-! ## Operations -/

section Operations

variable {w w' : World Bytes} {o o' : Operation Bytes}

/-- What an operation does by itself keeps the stamps, and an eviction goes on with its own
request; it is checked where the checks have passed. -/
structure Proceeds (w : World Bytes) (o : Operation Bytes) (w' : World Bytes)
    (o' : Operation Bytes) : Prop where
  keeps : ∀ problemId, KeepsAccess problemId w.db.problemUsage w'.db.problemUsage
  request : ∀ e', o' = .evict e' → ∃ e, o = .evict e ∧ e'.request = e.request ∧
    ∀ scan, e'.phase = .checked scan → evictChecks w.db e.request e.generation = .ok ()

theorem proceeds_silent (h : ∀ e', o' = .evict e' → ∃ e, o = .evict e ∧ e'.request = e.request ∧
    ∀ scan, e'.phase = .checked scan → evictChecks w.db e.request e.generation = .ok ()) :
    Proceeds w o w o' :=
  ⟨fun problemId => keepsAccess_refl problemId _, h⟩

theorem proceeds_done : Proceeds w o w .done :=
  proceeds_silent fun _ h => by cases h

theorem proceeds_write {db : Database} (hwrite : w.write db = some w')
    (hkeeps : ∀ problemId, KeepsAccess problemId w.db.problemUsage db.problemUsage) :
    Proceeds w o w' .done := by
  obtain ⟨-, rfl⟩ := commit_eq_some hwrite
  exact ⟨hkeeps, fun _ h => by cases h⟩

theorem Moves.proceeds (hrestored : ∀ q generation staging,
      o ≠ .restore ⟨q, generation, staging, .published⟩)
    (h : Moves site w o w' o') : Proceeds w o w' o' := by
  cases h with
  | quit => exact proceeds_done
  | restored => exact absurd rfl (hrestored _ _ _)
  | evicted hwrite =>
      exact proceeds_write hwrite fun _ => keepsAccess_updateWhere fun _ => ⟨rfl, rfl⟩
  | finalized _ hwrite =>
      exact proceeds_write hwrite fun _ => keepsAccess_updateWhere fun _ => ⟨rfl, rfl⟩
  | evict h =>
      cases h with
      | check hchecks =>
          refine proceeds_silent fun _ he => ?_
          cases he
          exact ⟨_, rfl, rfl, fun _ _ => hchecks⟩
      | lock | scan | matching | fence =>
          refine proceeds_silent fun _ he => ?_
          cases he
          exact ⟨_, rfl, rfl, fun _ h => by cases h⟩
      | rename =>
          refine ⟨fun problemId => keepsAccess_refl problemId _, fun _ he => ?_⟩
          cases he
          exact ⟨_, rfl, rfl, fun _ h => by cases h⟩
  | restore h =>
      cases h with
      | lock | fence | ready | vacant | clean | scan | matching => exact proceeds_silent fun _ h => by cases h
      | clear => exact ⟨fun problemId => keepsAccess_refl problemId _, fun _ h => by cases h⟩

end Operations

/-! ## The run -/

section Run

variable {cutoff : Timestamp} {s t : Accesses Bytes}

/-- Once a call has stamped beyond the cutoff, the stamp stays beyond it, and no eviction with
the cutoff has been checked. -/
structure AccessInv (site : Site Bytes) (cutoff : Timestamp) (s : Accesses Bytes) : Prop where
  tracked : Tracked site.problemId s.world.db.problemUsage
  evictions : ∀ e, .evict e ∈ s.world.operations → e.request.problemId = site.problemId
  found : ∀ stamp ∈ s.found, stamp ∈ s.touched
  accessed : (∃ stamp ∈ s.touched, cutoff < stamp) →
    Accessed site.problemId cutoff s.world.db.problemUsage
  unchecked : (∃ stamp ∈ s.touched, cutoff < stamp) →
    ∀ e scan, .evict e ∈ s.world.operations → e.phase = .checked scan →
      e.request.idleBefore ≠ some cutoff

theorem AccessInv.keep {w : World Bytes} (h : AccessInv site cutoff s)
    (hkeeps : KeepsAccess site.problemId s.world.db.problemUsage w.db.problemUsage)
    (hoperations : ∀ e', .evict e' ∈ w.operations → .evict e' ∈ s.world.operations ∨
      e'.request.problemId = site.problemId ∧ ∀ scan, e'.phase = .checked scan →
        Accessed site.problemId cutoff s.world.db.problemUsage → e'.request.idleBefore ≠ some cutoff) :
    AccessInv site cutoff { s with world := w } := by
  refine ⟨hkeeps.2 h.tracked, ?_, h.found, fun hstamped => (h.accessed hstamped).keep hkeeps, ?_⟩
  · intro e' he'
    rcases hoperations e' he' with hold | ⟨hid, -⟩
    · exact h.evictions e' hold
    · exact hid
  · intro hstamped e' scan he' hphase
    rcases hoperations e' he' with hold | ⟨-, hchecked⟩
    · exact h.unchecked hstamped e' scan hold hphase
    · exact hchecked scan hphase (h.accessed hstamped)

theorem AccessInv.stamp {w : World Bytes} (h : AccessInv site cutoff s)
    (hoperations : ∀ e, .evict e ∈ w.operations → .evict e ∈ s.world.operations)
    (htracked : Tracked site.problemId w.db.problemUsage)
    (haccessed : Accessed site.problemId cutoff s.world.db.problemUsage →
      Accessed site.problemId cutoff w.db.problemUsage) :
    AccessInv site cutoff { s with world := w } :=
  ⟨htracked, fun e he => h.evictions e (hoperations e he), h.found,
    fun hstamped => haccessed (h.accessed hstamped),
    fun hstamped e scan he hphase => h.unchecked hstamped e scan (hoperations e he) hphase⟩

theorem write_eq_some {w w' : World Bytes} {db : Database} (h : w.write db = some w') :
    w'.db = db ∧ w'.operations = w.operations ∧ w'.folder = w.folder := by
  unfold World.write World.commit at h
  split at h
  · cases h
    exact ⟨rfl, rfl, rfl⟩
  · cases h

theorem not_checked_of_advisoryLockFree {w : World Bytes}
    (hfree : advisoryLockFree w.operations site.problemId = true) {e : Eviction Bytes}
    (he : .evict e ∈ w.operations) (hid : e.request.problemId = site.problemId) (scan : ScanResult) :
    e.phase ≠ .checked scan := by
  intro hphase
  obtain ⟨q, generation, phase⟩ := e
  dsimp only at hphase hid
  subst hphase
  have hlock := List.all_eq_true.mp hfree _ he
  simp [Operation.transaction, hid] at hlock

theorem folder_evict {w w' : World Bytes} {e : Eviction Bytes} {o' : Operation Bytes}
    (h : Moves site w (.evict e) w' o') :
    w'.folder = w.folder ∨ ∃ scan, e.phase = .checked scan := by
  cases h with
  | quit => exact .inl rfl
  | evicted hwrite => exact .inl (write_eq_some hwrite).2.2
  | evict h =>
      cases h with
      | lock | scan | matching | fence | check => exact .inl rfl
      | @rename scan => exact .inr ⟨scan, rfl⟩

variable [DecidableEq Bytes]

theorem accessInv_touch {began : Timestamp} (h : AccessInv site cutoff s)
    (hordered : StampsInOrder site cutoff s (.touch began) t)
    (hstep : accessStep site s (.touch began) = some t) : AccessInv site cutoff t := by
  simp only [accessStep] at hstep
  split at hstep
  · rename_i hguard
    obtain ⟨w, hwrite, rfl⟩ := Option.map_eq_some_iff.mp hstep
    obtain ⟨hdb, hoperations, -⟩ := write_eq_some hwrite
    have hstamped : cutoff < began →
        Accessed site.problemId cutoff (touchProblemAccess began site.problemId s.world.db).problemUsage :=
      fun hbegan => accessed_updateWhere hbegan fun u => rfl
    refine ⟨?_, ?_, ?_, ?_, ?_⟩
    · show Tracked site.problemId w.db.problemUsage
      rw [hdb]
      exact tracked_updateWhere (fun u => rfl) h.tracked
    · show ∀ e, .evict e ∈ w.operations → _
      rw [hoperations]
      exact h.evictions
    · intro stamp hstamp
      exact List.mem_append_left _ (h.found stamp hstamp)
    · rintro ⟨stamp, hstamp, hlt⟩
      show Accessed site.problemId cutoff w.db.problemUsage
      rw [hdb]
      rcases List.mem_append.mp hstamp with hold | hnew
      · exact hstamped ((h.accessed ⟨stamp, hold, hlt⟩).lt_began h.tracked hordered)
      · rw [List.mem_singleton.mp hnew] at hlt
        exact hstamped hlt
    · intro _ e scan he hphase
      have he : Operation.evict e ∈ s.world.operations := hoperations ▸ he
      exact absurd hphase (not_checked_of_advisoryLockFree hguard.2.1 he (h.evictions e he) scan)
  · cases hstep

theorem accessInv_commitRestore {i : Nat} {began : Timestamp} (h : AccessInv site cutoff s)
    (hordered : StampsInOrder site cutoff s (.commitRestore i began) t)
    (hstep : accessStep site s (.commitRestore i began) = some t) : AccessInv site cutoff t := by
  simp only [accessStep] at hstep
  split at hstep
  · rename_i q generation staging hrestore
    split at hstep
    · obtain ⟨w, hwrite, rfl⟩ := Option.map_eq_some_iff.mp hstep
      obtain ⟨hdb, hoperations, -⟩ := write_eq_some hwrite
      have husage : (w.setOperation i .done).db.problemUsage =
          (restored began q s.world.db).problemUsage := congrArg Database.problemUsage hdb
      apply h.stamp
      · intro e he
        rcases mem_operations_set he with hdone | hold
        · cases hdone
        · exact hoperations ▸ hold
      · rw [husage]
        exact tracked_updateWhere (fun u => rfl) h.tracked
      · intro haccessed
        rw [husage]
        by_cases hid : q.problemId = site.problemId
        · rw [restored, hid]
          exact accessed_updateWhere (haccessed.lt_began h.tracked hordered) fun u => rfl
        · intro u' hu' hown
          obtain ⟨u, hu, rfl⟩ := mem_updateWhere.mp hu'
          by_cases hq : u.problemId = q.problemId
          · rw [if_pos (decide_eq_true hq)] at hown
            exact absurd (hq.symm.trans hown) hid
          · rw [if_neg (by simpa using hq)] at hown ⊢
            exact haccessed u hu hown
    · cases hstep
  · cases hstep

theorem accessInv_markLocalPresent {began : Timestamp} {generation : Option Int}
    (h : AccessInv site cutoff s)
    (hordered : StampsInOrder site cutoff s (.markLocalPresent began generation) t)
    (hstep : accessStep site s (.markLocalPresent began generation) = some t) :
    AccessInv site cutoff t := by
  simp only [accessStep] at hstep
  split at hstep
  · obtain ⟨w, hwrite, rfl⟩ := Option.map_eq_some_iff.mp hstep
    obtain ⟨hdb, hoperations, -⟩ := write_eq_some hwrite
    apply h.stamp
    · intro e he
      exact hoperations ▸ he
    · rw [hdb]
      exact tracked_markLocalPresent generation h.tracked
    · intro haccessed
      rw [hdb]
      exact accessed_markLocalPresent (haccessed.lt_began h.tracked hordered) generation
  · cases hstep

theorem accessInv_operation {a : Action Bytes} (h : AccessInv site cutoff s)
    (hstep : accessStep site s (.operation a) = some t) : AccessInv site cutoff t := by
  simp only [accessStep] at hstep
  split at hstep
  · rename_i hfolder
    obtain ⟨w, hw, rfl⟩ := Option.map_eq_some_iff.mp hstep
    have hstart : ∀ {o : Operation Bytes}, (∀ e, o = .evict e → e.request.problemId = site.problemId ∧
        ∀ scan, e.phase ≠ .checked scan) → AccessInv site cutoff { s with world := s.world.start o } := by
      intro o ho
      refine h.keep (w := s.world.start o) (keepsAccess_refl _ _) ?_
      intro e he
      rcases List.mem_append.mp he with hold | hnew
      · exact .inl hold
      · obtain ⟨hid, hphase⟩ := ho e (List.mem_singleton.mp hnew).symm
        exact .inr ⟨hid, fun scan hchecked => absurd hchecked (hphase scan)⟩
    cases steps_of_step hw with
    | startEvict hid =>
        apply hstart
        intro e he
        cases he
        exact ⟨hid, fun _ h => by cases h⟩
    | startRestore | startFinalize => exact hstart fun _ h => by cases h
    | @advance i o w₁ o₁ ho hmove =>
        have hrestored : ∀ q generation staging, o ≠ .restore ⟨q, generation, staging, .published⟩ := by
          rintro q generation staging rfl
          simp [Action.onFolder, ho] at hfolder
        have hproceeds := hmove.proceeds hrestored
        refine h.keep (w := w₁.setOperation i o₁) (hproceeds.keeps site.problemId) ?_
        intro e' he'
        rcases mem_operations_set he' with hnew | hold
        · obtain ⟨e, rfl, hrequest, hchecked⟩ := hproceeds.request e' hnew.symm
          have hid := h.evictions e (List.mem_of_getElem? ho)
          rw [hrequest]
          refine .inr ⟨hid, fun scan hphase haccessed => ?_⟩
          rw [← hid] at haccessed
          exact evictChecks_accessed haccessed (hchecked scan hphase)
        · rw [hmove.keepsLocks.operations] at hold
          exact .inl hold
    | publish =>
        refine AccessInv.keep h (keepsAccess_refl site.problemId s.world.db.problemUsage) ?_
        intro e he
        rcases mem_operations_set he with hnew | hold
        · cases hnew
        · exact .inl hold
    | @giveUp i o ho =>
        have hdb : (s.world.putBack o).db = s.world.db :=
          congrArg Jobs.Ledger.db (s.world.putBack_ledger o)
        apply h.keep
        · show KeepsAccess _ _ (s.world.putBack o).db.problemUsage
          rw [hdb]
          exact keepsAccess_refl _ _
        · intro e he
          rcases mem_operations_set he with hnew | hold
          · cases hnew
          · exact .inl (s.world.putBack_operations o ▸ hold)
    | upload => exact h.keep (keepsAccess_refl _ _) fun e he => .inl he
    | statement => cases hfolder
    | touch => cases hfolder
  · cases hstep

theorem accessInv_step {a : AccessAction Bytes} (h : AccessInv site cutoff s)
    (hordered : StampsInOrder site cutoff s a t) (hstep : accessStep site s a = some t) :
    AccessInv site cutoff t := by
  cases a with
  | touch began => exact accessInv_touch h hordered hstep
  | commitRestore i began => exact accessInv_commitRestore h hordered hstep
  | markLocalPresent began generation => exact accessInv_markLocalPresent h hordered hstep
  | operation a => exact accessInv_operation h hstep
  | check stamp =>
      simp only [accessStep] at hstep
      split at hstep
      · rename_i hguard
        cases hstep
        refine ⟨h.tracked, h.evictions, ?_, h.accessed, h.unchecked⟩
        intro stamp' hstamp
        rcases List.mem_append.mp hstamp with hold | hnew
        · exact h.found stamp' hold
        · rw [List.mem_singleton.mp hnew]
          exact hguard.1
      · cases hstep
  | other ledger =>
      simp only [accessStep] at hstep
      split at hstep
      · rename_i hguard
        obtain ⟨w, hcommit, rfl⟩ := Option.map_eq_some_iff.mp hstep
        unfold World.commit at hcommit
        split at hcommit
        · cases hcommit
          exact h.keep hguard.1 fun e he => .inl he
        · cases hcommit
      · cases hstep

theorem spares_of_inv {a : AccessAction Bytes} (h : AccessInv site cutoff s)
    (hstep : accessStep site s a = some t) : Spares cutoff s a t := by
  rintro ⟨stamp, hfound, hlt⟩ hevicts
  cases a with
  | operation a =>
      cases a with
      | advance i =>
          obtain ⟨hcutoff, hsome, hnone⟩ := hevicts
          simp only [accessStep] at hstep
          split at hstep
          · obtain ⟨w, hw, rfl⟩ := Option.map_eq_some_iff.mp hstep
            obtain ⟨o, ho, hw⟩ := Option.bind_eq_some_iff.mp hw
            obtain ⟨⟨w₁, o₁⟩, hadvance, hw⟩ := Option.bind_eq_some_iff.mp hw
            cases hw
            rw [ho, Option.any_some] at hcutoff
            cases o with
            | evict e =>
                have hnone : w₁.folder.isSome = false := hnone
                rcases folder_evict (moves_of_advance hadvance) with hkept | ⟨scan, hphase⟩
                · rw [hkept, hsome] at hnone
                  cases hnone
                · exact h.unchecked ⟨stamp, h.found stamp hfound, hlt⟩ e scan
                    (List.mem_of_getElem? ho) hphase (of_decide_eq_true hcutoff)
            | restore r | finalize a | done => cases hcutoff
          · cases hstep
      | startEvict | startRestore | startFinalize | publish | giveUp | upload | statement | touch =>
          cases hevicts
  | touch | check | commitRestore | markLocalPresent | other => cases hevicts

/-- Along every run in which no transaction that has begun at or before the cutoff puts back a
stamp beyond it, an eviction with the cutoff spares what a later call has found. -/
theorem ensure_ready_fence {w : World Bytes} {acts : List (AccessAction Bytes)}
    (htracked : Tracked site.problemId w.db.problemUsage) (hidle : w.operations = [])
    (hordered : EveryStep (accessStep site) (StampsInOrder site cutoff) { world := w } acts) :
    EveryStep (accessStep site) (Spares cutoff) { world := w } acts := by
  have hinit : AccessInv site cutoff { world := w } := by
    refine ⟨htracked, ?_, fun _ h => h, ?_, ?_⟩
    · intro e he
      rw [show ({ world := w } : Accesses Bytes).world.operations = [] from hidle] at he
      cases he
    · rintro ⟨stamp, hstamp, -⟩
      cases hstamp
    · rintro ⟨stamp, hstamp, -⟩
      cases hstamp
  exact everyStep_of_invariant (I := AccessInv site cutoff) (C := StampsInOrder site cutoff)
    (P := Spares cutoff) (fun _ _ _ h hordered hstep => accessInv_step h hordered hstep)
    (fun _ _ _ h _ hstep => spares_of_inv h hstep) hinit hordered

end Run

/-! Problem 7 is backed up, and its folder holds the archive. -/

def archiveFolder : Folder String where
  walk := [⟨[.ofText "tests.zip"], .file 2 "tests", ⟨1, 2, 1, 1, 33188⟩⟩]
  same := by
    intro e he e' he' i x i' x' hx hx' _
    rw [List.mem_singleton.mp he] at hx
    rw [List.mem_singleton.mp he'] at hx'
    cases hx
    cases hx'
    rfl

def backedUpWorld : World String where
  ledger := {
    now := 20
    db := {
      problems := [Jobs.sampleProblem "7" "sums" .present]
      problemUsage := [{ unbackedUsage with r2Status := .ready, snapshotGeneration := some 1 }]
      snapshots := [{ verifyingRow with state := .ready }]
      snapshotObjects := [⟨1, "tests", "tests.zip", 5, objectKeyForSha256 "tests", true, true⟩]
      jobs := [heldJob 1 "evict" .evict (some "7") 1] } }
  folder := some archiveFolder

def evictIdle : EvictRequest := ⟨"7", "sums", false, true, 1, some 5⟩

def evictInFull : List (AccessAction String) :=
  .operation (.startEvict evictIdle) :: List.replicate 6 (.operation (.advance 0))

theorem ensure_ready_fence_in_turn :
    (exec (accessStep sampleSite) { world := backedUpWorld }
        ([.touch 1, .touch 10, .check 10] ++ evictInFull.take 6)).isSome ∧
      EveryStep (accessStep sampleSite) (Spares 5) { world := backedUpWorld }
        ([.touch 1, .touch 10, .check 10] ++ evictInFull.take 6) :=
  ⟨by decide +kernel, ensure_ready_fence ⟨_, List.mem_singleton_self _, rfl⟩ rfl (by decide +kernel)⟩

/-- The call that has stamped 1 commits after the call that has stamped 10. -/
theorem accessed_folder_evicted :
    (exec (accessStep sampleSite) { world := backedUpWorld }
        ([.touch 10, .check 10, .touch 1] ++ evictInFull)).isSome ∧
      ¬ EveryStep (accessStep sampleSite) (Spares 5) { world := backedUpWorld }
        ([.touch 10, .check 10, .touch 1] ++ evictInFull) :=
  ⟨by decide +kernel, by decide +kernel⟩

end ExternalStorage.Publication
