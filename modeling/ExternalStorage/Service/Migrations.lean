import ExternalStorage.Library.Runs
import Mathlib.Data.List.Infix
import Mathlib.Data.List.Nodup

/-!
# Migrations

Any number of processes run `runMigrations` at once, each with the files of its release; a later
release adds files behind those there are.  The database holds what the first migrations make of
it, in order and each once, and `schema_migrations` says how many.
-/

namespace ExternalStorage.Service

open Library.Runs

variable {σ : Type}

/-! ## Statements -/

/-- A file of the directory: its name without `.sql`, and the writes that it makes over the schema
it finds, unless one of its statements fails. -/
structure Migration (σ : Type) where
  version : String
  sql : σ → Option (σ → σ)

inductive MigratorPhase (σ : Type) where
  | looking (todo : List (Migration σ))
  /-- The version is not in the table. -/
  | absent (m : Migration σ) (rest : List (Migration σ))
  /-- Inside the transaction, past the file. -/
  | applied (m : Migration σ) (rest : List (Migration σ)) (changes : σ → σ)
  /-- Inside the transaction, past the `INSERT`. -/
  | inserted (m : Migration σ) (rest : List (Migration σ)) (changes : σ → σ)
  | complete
  | failed

structure Migrator (σ : Type) where
  /-- The number of files of its release. -/
  release : Nat
  phase : MigratorPhase σ

structure Deployment (σ : Type) where
  schema : σ
  log : List String
  migrators : List (Migrator σ) := []

inductive MigrateOp where
  | look
  | apply
  | insert
  | commit
  /-- A statement fails, or the process stops. -/
  | fail

inductive DeployAction where
  | start (release : Nat)
  | migrate (i : Nat) (op : MigrateOp)

/-- An open transaction has inserted the version: another `INSERT` of it waits. -/
def Deployment.pendingInsert (s : Deployment σ) (version : String) : Bool :=
  s.migrators.any fun p =>
    match p.phase with
    | .inserted m _ _ => m.version = version
    | _ => false

def migrateStep (s : Deployment σ) (op : MigrateOp) :
    MigratorPhase σ → Option (σ × List String × MigratorPhase σ)
  | .looking [] =>
      match op with
      | .look => some (s.schema, s.log, .complete)
      | .fail => some (s.schema, s.log, .failed)
      | _ => none
  | .looking (m :: rest) =>
      match op with
      | .look =>
          some (s.schema, s.log, if m.version ∈ s.log then .looking rest else .absent m rest)
      | .fail => some (s.schema, s.log, .failed)
      | _ => none
  | .absent m rest =>
      match op with
      | .apply =>
          match m.sql s.schema with
          | some changes => some (s.schema, s.log, .applied m rest changes)
          | none => some (s.schema, s.log, .failed)
      | .fail => some (s.schema, s.log, .failed)
      | _ => none
  | .applied m rest changes =>
      match op with
      | .insert =>
          if s.pendingInsert m.version then none
          else if m.version ∈ s.log then some (s.schema, s.log, .failed)
          else some (s.schema, s.log, .inserted m rest changes)
      | .fail => some (s.schema, s.log, .failed)
      | _ => none
  | .inserted m rest changes =>
      match op with
      | .commit => some (changes s.schema, s.log ++ [m.version], .looking rest)
      | .fail => some (s.schema, s.log, .failed)
      | _ => none
  | .complete | .failed => none

def deployStep (files : List (Migration σ)) (s : Deployment σ) :
    DeployAction → Option (Deployment σ)
  | .start release =>
      some { s with migrators := s.migrators ++ [⟨release, .looking (files.take release)⟩] }
  | .migrate i op =>
      (s.migrators[i]?).bind fun p =>
        (migrateStep s op p.phase).map fun (schema, log, phase) =>
          ⟨schema, log, s.migrators.set i { p with phase := phase }⟩

/-- The files, one after the other. -/
def applyAll (files : List (Migration σ)) (schema : σ) : Option σ :=
  files.foldlM (fun schema m => (m.sql schema).map fun changes => changes schema) schema

/-- The database is at the first `n` migrations. -/
structure AtVersion (files : List (Migration σ)) (origin : σ) (s : Deployment σ) (n : Nat) :
    Prop where
  bound : n ≤ files.length
  log : s.log = (files.take n).map Migration.version
  schema : applyAll (files.take n) origin = some s.schema

/-! ## The processes -/

/-- What a process knows: the files before those it has still to do are in the table, and what it
has read in its transaction is still so unless the version has come into the table. -/
def Knows (files : List (Migration σ)) (s : Deployment σ) (p : Migrator σ) : Prop :=
  match p.phase with
  | .looking todo => ∃ done, done ++ todo = files.take p.release ∧
      ∀ m ∈ done, m.version ∈ s.log
  | .absent m rest => ∃ done, done ++ m :: rest = files.take p.release ∧
      ∀ m ∈ done, m.version ∈ s.log
  | .applied m rest changes => ∃ done, done ++ m :: rest = files.take p.release ∧
      (∀ m ∈ done, m.version ∈ s.log) ∧
        (m.version ∉ s.log → m.sql s.schema = some changes)
  | .inserted m rest changes => ∃ done, done ++ m :: rest = files.take p.release ∧
      (∀ m ∈ done, m.version ∈ s.log) ∧ m.version ∉ s.log ∧ m.sql s.schema = some changes
  | .complete => ∀ m ∈ files.take p.release, m.version ∈ s.log
  | .failed => True

structure DeployInv (files : List (Migration σ)) (origin : σ) (s : Deployment σ) : Prop where
  version : ∃ n, AtVersion files origin s n
  knows : ∀ p ∈ s.migrators, Knows files s p
  /-- No two open transactions have inserted one version. -/
  apart : ∀ (i j : Nat) (p q : Migrator σ) m m' rest rest' changes changes',
    s.migrators[i]? = some p → s.migrators[j]? = some q →
      p.phase = .inserted m rest changes → q.phase = .inserted m' rest' changes' →
        m.version = m'.version → i = j

section Files

variable {files : List (Migration σ)} {origin : σ} {s : Deployment σ} {n k : Nat}
  {done rest : List (Migration σ)} {m : Migration σ}

theorem version_notMem_take (hversions : (files.map Migration.version).Nodup)
    (hn : n < files.length) : files[n].version ∉ (files.take n).map Migration.version := by
  have hfirst := hversions.sublist ((List.take_sublist (n + 1) files).map Migration.version)
  rw [List.take_add_one, List.getElem?_eq_getElem hn, List.map_append, List.nodup_append] at hfirst
  intro hmem
  exact hfirst.2.2 _ hmem files[n].version (by simp) rfl

theorem getElem_of_append (hfiles : done ++ rest = files.take k) {i : Nat} (hi : i < done.length) :
    ∃ hlt : i < files.length, done[i] = files[i] := by
  have hget : (files.take k)[i]? = some done[i] := by
    rw [← hfiles, List.getElem?_append_left hi, List.getElem?_eq_getElem hi]
  rw [List.getElem?_take] at hget
  split at hget
  · obtain ⟨hlt, heq⟩ := List.getElem?_eq_some_iff.mp hget
    exact ⟨hlt, heq.symm⟩
  · cases hget

/-- The first file of a process that is not in the table is the one behind those that are. -/
theorem next_of_absent (hversions : (files.map Migration.version).Nodup)
    (hat : AtVersion files origin s n) (hfiles : done ++ m :: rest = files.take k)
    (hdone : ∀ m ∈ done, m.version ∈ s.log) (habsent : m.version ∉ s.log) :
    files.take (n + 1) = files.take n ++ [m] ∧ n + 1 ≤ files.length := by
  have hsplit : (done ++ [m]) ++ rest = files.take k := by
    rw [List.append_assoc]
    exact hfiles
  obtain ⟨hlt, hm⟩ := getElem_of_append hsplit (i := done.length) (by simp)
  rw [List.getElem_concat_length rfl] at hm
  have hle : ¬ n < done.length := by
    intro hn
    obtain ⟨hnlt, hget⟩ := getElem_of_append hfiles hn
    have hmem := hdone _ (List.getElem_mem hn)
    rw [hget, hat.log] at hmem
    exact version_notMem_take hversions hnlt hmem
  have hge : ¬ done.length < n := by
    intro hn
    refine habsent ?_
    rw [hat.log, hm]
    have hin : done.length < (files.take n).length := by
      rw [List.length_take]
      omega
    have hmem := List.getElem_mem hin
    rw [List.getElem_take] at hmem
    exact List.mem_map_of_mem hmem
  have heq : done.length = n := by omega
  subst heq
  refine ⟨?_, hlt⟩
  rw [List.take_add_one, List.getElem?_eq_getElem hlt, ← hm]
  rfl

end Files

section Step

variable {files : List (Migration σ)} {origin : σ} {s t : Deployment σ} {i : Nat} {p : Migrator σ}

theorem mem_migrators_set {phase : MigratorPhase σ} {q : Migrator σ}
    (hq : q ∈ s.migrators.set i { p with phase := phase }) :
    q ∈ s.migrators ∨ q = { p with phase := phase } :=
  List.mem_or_eq_of_mem_set hq

theorem DeployInv.moved (h : DeployInv files origin s) {phase : MigratorPhase σ}
    (hknows : Knows files s { p with phase := phase })
    (hfree : ∀ m rest changes, phase = .inserted m rest changes →
      s.pendingInsert m.version = false) :
    DeployInv files origin ⟨s.schema, s.log, s.migrators.set i { p with phase := phase }⟩ := by
  refine ⟨?_, fun q hq => ?_, ?_⟩
  · obtain ⟨n, hat⟩ := h.version
    exact ⟨n, hat.bound, hat.log, hat.schema⟩
  · rcases mem_migrators_set hq with hold | rfl
    · exact h.knows q hold
    · exact hknows
  · -- A new insert of a version finds no other.
    have hnone : ∀ (k : Nat) (q : Migrator σ) m m' rest rest' changes changes',
        s.migrators[k]? = some q → q.phase = .inserted m rest changes →
          phase = .inserted m' rest' changes' → m.version ≠ m'.version := by
      intro k q m m' rest rest' changes changes' hq hqphase hphase heq
      have hpending := hfree m' rest' changes' hphase
      rw [Deployment.pendingInsert, List.any_eq_false] at hpending
      have hq := hpending q (List.mem_of_getElem? hq)
      rw [hqphase] at hq
      exact hq (decide_eq_true heq)
    intro j k q q' m m' rest rest' changes changes' hj hk hq hq' heq
    rw [List.getElem?_set] at hj hk
    split at hj <;> split at hk
    · omega
    · split at hj
      · cases hj
        exact absurd heq.symm (hnone k q' m' m rest' rest changes' changes hk hq' hq)
      · cases hj
    · split at hk
      · cases hk
        exact absurd heq (hnone j q m m' rest rest' changes changes' hj hq hq')
      · cases hk
    · exact h.apart j k q q' m m' rest rest' changes changes' hj hk hq hq' heq

/-- A commit takes the database to the next version; who has read the old one knows. -/
theorem DeployInv.committed (hversions : (files.map Migration.version).Nodup)
    (h : DeployInv files origin s) (hp : s.migrators[i]? = some p) {m : Migration σ}
    {rest : List (Migration σ)} {changes : σ → σ} (hphase : p.phase = .inserted m rest changes) :
    DeployInv files origin ⟨changes s.schema, s.log ++ [m.version],
      s.migrators.set i { p with phase := .looking rest }⟩ := by
  obtain ⟨n, hat⟩ := h.version
  have hknows := h.knows p (List.mem_of_getElem? hp)
  rw [Knows, hphase] at hknows
  obtain ⟨done, hfiles, hdone, habsent, hsql⟩ := hknows
  obtain ⟨hnext, hbound⟩ := next_of_absent hversions hat hfiles hdone habsent
  have hmono : ∀ version ∈ s.log, version ∈ s.log ++ [m.version] :=
    fun _ hmem => List.mem_append_left _ hmem
  -- Another process whose next version is not in the table is at the same file.
  have hsame : ∀ {done' rest' : List (Migration σ)} {m' : Migration σ} {k : Nat},
      done' ++ m' :: rest' = files.take k → (∀ m ∈ done', m.version ∈ s.log) →
        m'.version ∉ s.log → m' = m := by
    intro done' rest' m' k hfiles' hdone' habsent'
    have hnext' := (next_of_absent hversions hat hfiles' hdone' habsent').1
    rw [hnext] at hnext'
    exact (List.singleton_inj.mp (List.append_cancel_left hnext')).symm
  refine ⟨⟨n + 1, hbound, ?_, ?_⟩, fun q hq => ?_, ?_⟩
  · change s.log ++ [m.version] = _
    rw [hnext, List.map_append, ← hat.log]
    rfl
  · have hstart := hat.schema
    rw [applyAll] at hstart ⊢
    rw [hnext, List.foldlM_append, hstart]
    simp [hsql]
  · rcases List.mem_iff_getElem?.mp hq with ⟨j, hj⟩
    rw [List.getElem?_set] at hj
    split at hj
    · split at hj
      · cases hj
        refine ⟨done ++ [m], ?_, fun g hg => ?_⟩
        · rw [List.append_assoc]
          exact hfiles
        · rcases List.mem_append.mp hg with hold | hnew
          · exact hmono _ (hdone g hold)
          · rw [List.mem_singleton.mp hnew]
            exact List.mem_append_right _ (List.mem_singleton.mpr rfl)
      · cases hj
    · rename_i hij
      have hold := h.knows q (List.mem_of_getElem? hj)
      unfold Knows at hold ⊢
      cases hqphase : q.phase with
      | looking todo | absent m' rest' =>
          rw [hqphase] at hold
          obtain ⟨done', hfiles', hdone'⟩ := hold
          exact ⟨done', hfiles', fun g hg => hmono _ (hdone' g hg)⟩
      | applied m' rest' changes' =>
          rw [hqphase] at hold
          obtain ⟨done', hfiles', hdone', -⟩ := hold
          refine ⟨done', hfiles', fun g hg => hmono _ (hdone' g hg), fun habsent' => ?_⟩
          have hm := hsame hfiles' hdone' fun hmem => habsent' (hmono _ hmem)
          rw [hm] at habsent'
          exact absurd (List.mem_append_right _ (List.mem_singleton.mpr rfl)) habsent'
      | inserted m' rest' changes' =>
          rw [hqphase] at hold
          obtain ⟨done', hfiles', hdone', habsent', -⟩ := hold
          have hm := hsame hfiles' hdone' habsent'
          exact absurd (h.apart i j p q m m' rest rest' changes changes' hp hj hphase hqphase
            (by rw [hm])) hij
      | complete =>
          rw [hqphase] at hold
          exact fun g hg => hmono _ (hold g hg)
      | failed => trivial
  · intro j k q q' m₁ m₂ rest₁ rest₂ changes₁ changes₂ hj hk hq hq' heq
    rw [List.getElem?_set] at hj hk
    split at hj
    · split at hj <;> cases hj
      cases hq
    · split at hk
      · split at hk <;> cases hk
        cases hq'
      · exact h.apart j k q q' m₁ m₂ rest₁ rest₂ changes₁ changes₂ hj hk hq hq' heq

theorem DeployInv.started (h : DeployInv files origin s) (release : Nat) :
    DeployInv files origin
      { s with migrators := s.migrators ++ [⟨release, .looking (files.take release)⟩] } := by
  refine ⟨?_, fun q hq => ?_, ?_⟩
  · obtain ⟨n, hat⟩ := h.version
    exact ⟨n, hat.bound, hat.log, hat.schema⟩
  · rcases List.mem_append.mp hq with hold | hnew
    · exact h.knows q hold
    · rw [List.mem_singleton.mp hnew]
      exact ⟨[], rfl, List.forall_mem_nil _⟩
  · have hold : ∀ (j : Nat) (q : Migrator σ) m rest changes,
        (s.migrators ++ [⟨release, .looking (files.take release)⟩])[j]? = some q →
          q.phase = .inserted m rest changes → s.migrators[j]? = some q := by
      intro j q m rest changes hj hq
      rw [List.getElem?_append] at hj
      split at hj
      · exact hj
      · have hmem := List.mem_of_getElem? hj
        rw [List.mem_singleton.mp hmem] at hq
        cases hq
    intro j k q q' m m' rest rest' changes changes' hj hk hq hq' heq
    exact h.apart j k q q' m m' rest rest' changes changes' (hold _ _ _ _ _ hj hq)
      (hold _ _ _ _ _ hk hq') hq hq' heq

theorem DeployInv.step (hversions : (files.map Migration.version).Nodup)
    (h : DeployInv files origin s) {a : DeployAction} (hstep : deployStep files s a = some t) :
    DeployInv files origin t ∧ s.log <+: t.log := by
  cases a with
  | start release =>
      cases hstep
      exact ⟨h.started release, List.prefix_rfl⟩
  | migrate i op =>
      obtain ⟨p, hp, hstep⟩ := Option.bind_eq_some_iff.mp hstep
      obtain ⟨⟨schema, log, phase⟩, hmigrate, rfl⟩ := Option.map_eq_some_iff.mp hstep
      have hknows := h.knows p (List.mem_of_getElem? hp)
      have hfailed : DeployInv files origin
          ⟨s.schema, s.log, s.migrators.set i { p with phase := .failed }⟩ :=
        h.moved trivial fun _ _ _ hphase => by cases hphase
      unfold migrateStep at hmigrate
      rw [Knows] at hknows
      split at hmigrate <;> rename_i hphase <;> rw [hphase] at hknows
      · split at hmigrate
        · cases hmigrate
          obtain ⟨done, hfiles, hdone⟩ := hknows
          rw [List.append_nil] at hfiles
          refine ⟨h.moved ?_ (fun _ _ _ hphase => by cases hphase), List.prefix_rfl⟩
          exact fun m hm => hdone m (by rw [hfiles]; exact hm)
        · cases hmigrate
          exact ⟨hfailed, List.prefix_rfl⟩
        · cases hmigrate
      · rename_i m rest
        split at hmigrate
        · cases hmigrate
          obtain ⟨done, hfiles, hdone⟩ := hknows
          refine ⟨h.moved ?_ fun _ _ _ hphase => ?_, List.prefix_rfl⟩
          · by_cases hmem : m.version ∈ s.log
            · rw [if_pos hmem]
              refine ⟨done ++ [m], by rw [List.append_assoc]; exact hfiles, fun g hg => ?_⟩
              rcases List.mem_append.mp hg with hold | hnew
              · exact hdone g hold
              · rw [List.mem_singleton.mp hnew]
                exact hmem
            · rw [if_neg hmem]
              exact ⟨done, hfiles, hdone⟩
          · split at hphase <;> cases hphase
        · cases hmigrate
          exact ⟨hfailed, List.prefix_rfl⟩
        · cases hmigrate
      · split at hmigrate
        · split at hmigrate
          · rename_i changes hsql
            cases hmigrate
            obtain ⟨done, hfiles, hdone⟩ := hknows
            refine ⟨h.moved ?_ (fun _ _ _ hphase => by cases hphase), List.prefix_rfl⟩
            exact ⟨done, hfiles, hdone, fun _ => hsql⟩
          · cases hmigrate
            exact ⟨hfailed, List.prefix_rfl⟩
        · cases hmigrate
          exact ⟨hfailed, List.prefix_rfl⟩
        · cases hmigrate
      · split at hmigrate
        · split at hmigrate
          · cases hmigrate
          · rename_i hfree
            split at hmigrate
            · cases hmigrate
              exact ⟨hfailed, List.prefix_rfl⟩
            · rename_i habsent
              cases hmigrate
              obtain ⟨done, hfiles, hdone, hsql⟩ := hknows
              refine ⟨h.moved ⟨done, hfiles, hdone, habsent, hsql habsent⟩ ?_, List.prefix_rfl⟩
              rintro _ _ _ ⟨⟩
              exact Bool.eq_false_iff.mpr hfree
        · cases hmigrate
          exact ⟨hfailed, List.prefix_rfl⟩
        · cases hmigrate
      · split at hmigrate
        · cases hmigrate
          exact ⟨h.committed hversions hp hphase, List.prefix_append _ _⟩
        · cases hmigrate
          exact ⟨hfailed, List.prefix_rfl⟩
        · cases hmigrate
      · cases hmigrate
      · cases hmigrate

end Step

/-! ## Runs -/

section Run

variable {files : List (Migration σ)} {origin : σ} {s₀ s t : Deployment σ} {n m : Nat}
  {as bs : List DeployAction}

theorem DeployInv.initial (hat : AtVersion files origin s n) (hnone : s.migrators = []) :
    DeployInv files origin s := by
  refine ⟨⟨n, hat⟩, ?_, ?_⟩
  · rw [hnone]
    exact List.forall_mem_nil _
  · intro i j p q _ _ _ _ _ _ hi
    rw [hnone] at hi
    cases hi

theorem DeployInv.run (hversions : (files.map Migration.version).Nodup)
    (h : DeployInv files origin s) (hexec : exec (deployStep files) s as = some t) :
    DeployInv files origin t ∧ s.log <+: t.log := by
  induction as generalizing s with
  | nil =>
      cases hexec
      exact ⟨h, List.prefix_rfl⟩
  | cons a as ih =>
      obtain ⟨u, hu, hrest⟩ := exec_cons_eq_some.mp hexec
      obtain ⟨hinv, hlog⟩ := h.step hversions hu
      obtain ⟨hend, hlog'⟩ := ih hinv hrest
      exact ⟨hend, hlog.trans hlog'⟩

theorem AtVersion.le_of_prefix (hs : AtVersion files origin s n) (ht : AtVersion files origin t m)
    (hlog : s.log <+: t.log) : n ≤ m := by
  have hlength := hlog.length_le
  rw [hs.log, ht.log, List.length_map, List.length_map, List.length_take,
    List.length_take] at hlength
  have hbound := hs.bound
  omega

theorem DeployInv.complete (hversions : (files.map Migration.version).Nodup)
    (h : DeployInv files origin s) (hat : AtVersion files origin s n) {p : Migrator σ}
    (hp : p ∈ s.migrators) (hcomplete : p.phase = .complete) : min p.release files.length ≤ n := by
  have hknows := h.knows p hp
  rw [Knows, hcomplete] at hknows
  by_contra hless
  have hlt : n < files.length := by omega
  refine version_notMem_take hversions hlt ?_
  rw [← hat.log]
  refine hknows _ (List.mem_iff_getElem.mpr ⟨n, ?_, List.getElem_take⟩)
  rw [List.length_take]
  omega

/-- Whatever the interleaving, the database goes from one version to the next, and a process that
comes to its end finds its release applied. -/
theorem migrations_in_order (hversions : (files.map Migration.version).Nodup) {n₀ : Nat}
    (hat : AtVersion files origin s₀ n₀) (hnone : s₀.migrators = [])
    (hexec : exec (deployStep files) s₀ as = some s)
    (hrest : exec (deployStep files) s bs = some t) :
    s₀.log <+: s.log ∧ s.log <+: t.log ∧ ∃ n m, n₀ ≤ n ∧ n ≤ m ∧
      AtVersion files origin s n ∧ AtVersion files origin t m ∧
        ∀ p ∈ t.migrators, p.phase = .complete → min p.release files.length ≤ m := by
  obtain ⟨hinv, hlog⟩ := (DeployInv.initial hat hnone).run hversions hexec
  obtain ⟨hinv', hlog'⟩ := hinv.run hversions hrest
  obtain ⟨n, hn⟩ := hinv.version
  obtain ⟨m, hm⟩ := hinv'.version
  exact ⟨hlog, hlog', n, m, hat.le_of_prefix hn hlog, hn.le_of_prefix hm hlog', hn, hm,
    fun p hp hcomplete => hinv'.complete hversions hm hp hcomplete⟩

end Run

/-! ### Two processes at the same file -/

def creates (table : String) (schema : List String) : Option (List String → List String) :=
  if table ∈ schema then none else some (· ++ [table])

def firstFiles : List (Migration (List String)) :=
  [⟨"001_init", creates "problems"⟩, ⟨"005_dashboard_users", creates "dashboard_users"⟩]

/-- Both find the first version absent and apply it; the second fails at its `INSERT`. -/
def racingProcesses : List DeployAction :=
  [.start 2, .start 2, .migrate 0 .look, .migrate 1 .look, .migrate 0 .apply, .migrate 1 .apply,
    .migrate 0 .insert, .migrate 0 .commit, .migrate 1 .insert, .migrate 0 .look,
    .migrate 0 .apply, .migrate 0 .insert, .migrate 0 .commit, .migrate 0 .look]

def racedDeployment (as : List DeployAction) : Deployment (List String) :=
  (exec (deployStep firstFiles) ⟨[], [], []⟩ as).getD ⟨[], [], []⟩

theorem migrations_in_order_sample :
    (racedDeployment (racingProcesses.take 8)).log = ["001_init"] ∧
      (racedDeployment racingProcesses).log = ["001_init", "005_dashboard_users"] ∧
        ∃ n m, n ≤ m ∧ AtVersion firstFiles [] (racedDeployment (racingProcesses.take 8)) n ∧
          AtVersion firstFiles [] (racedDeployment racingProcesses) m := by
  refine ⟨rfl, rfl, ?_⟩
  obtain ⟨-, -, n, m, -, hle, hn, hm, -⟩ := @migrations_in_order _ firstFiles [] ⟨[], [], []⟩
    (racedDeployment (racingProcesses.take 8)) (racedDeployment racingProcesses)
    (racingProcesses.take 8) (racingProcesses.drop 8) (by decide) 0 ⟨Nat.zero_le _, rfl, rfl⟩ rfl
    rfl rfl
  exact ⟨n, m, hle, hn, hm⟩

end ExternalStorage.Service
