import ExternalStorage.Library.Runs
import ExternalStorage.Library.Table

/-!
# Transactions that take locks one after the other

A transaction of a kind takes the locks of its program in order, keeps them to its end and
waits where another transaction holds the next one.  The program may depend on what is
committed when a lock is asked for.  Two transactions can wait for each other only over
two locks that their programs take in opposite orders.
-/

namespace ExternalStorage.Library.Locks

open Runs Table

structure Session (κ ρ : Type*) where
  pid : Nat
  kind : κ
  held : List ρ := []
  waiting : Option ρ := none
  deriving DecidableEq, Repr

structure State (ε κ ρ : Type*) where
  committed : ε
  sessions : List (Session κ ρ) := []
  deriving Repr

inductive Action (ε κ : Type*) where
  | start (pid : Nat) (kind : κ)
  | request (pid : Nat)
  /-- The transaction commits or rolls back; what is committed then is left open. -/
  | release (pid : Nat) (committed : ε)

/-! ## The order of a program -/

section Order

variable {ρ : Type*}

/-- Before every `l'` in the list there is an `l`. -/
def Leads (l l' : ρ) (locks : List ρ) : Prop :=
  ∀ front back, locks = front ++ l' :: back → l ∈ front

theorem leads_of_not_mem {l l' : ρ} {locks : List ρ} (h : l' ∉ locks) : Leads l l' locks := by
  rintro front back rfl
  exact absurd (List.mem_append_right _ List.mem_cons_self) h

theorem leads_cons {l l' : ρ} {locks : List ρ} (hne : l ≠ l') : Leads l l' (l :: locks) := by
  intro front back h
  cases front with
  | nil => exact absurd (List.cons.inj h).1 hne
  | cons a front =>
      rw [(List.cons.inj h).1]
      exact List.mem_cons_self

theorem Leads.cons {l l' a : ρ} {locks : List ρ} (h : Leads l l' locks) (hne : a ≠ l') :
    Leads l l' (a :: locks) := by
  intro front back heq
  cases front with
  | nil => exact absurd (List.cons.inj heq).1 hne
  | cons b front => exact List.mem_cons_of_mem _ (h front back (List.cons.inj heq).2)

theorem Leads.append {l l' : ρ} {left right : List ρ} (hleft : Leads l l' left)
    (hright : Leads l l' right) : Leads l l' (left ++ right) := by
  induction left with
  | nil => exact hright
  | cons a left ih =>
      intro front back heq
      cases front with
      | nil =>
          rw [List.cons_append, List.nil_append] at heq
          exact absurd (hleft [] left (by rw [(List.cons.inj heq).1]; rfl)) List.not_mem_nil
      | cons b front =>
          obtain ⟨rfl, htail⟩ := List.cons.inj heq
          by_cases hal : a = l
          · rw [hal]
            exact List.mem_cons_self
          · refine List.mem_cons_of_mem _ (ih ?_ front back htail)
            intro front' back' hsplit
            have hmem := hleft (a :: front') back' (by rw [hsplit]; rfl)
            exact (List.mem_cons.mp hmem).resolve_left (Ne.symm hal)

theorem leads_flatMap {α : Type*} {l l' : ρ} {f : α → List ρ} {xs : List α}
    (h : ∀ x ∈ xs, Leads l l' (f x)) : Leads l l' (xs.flatMap f) := by
  induction xs with
  | nil => exact leads_of_not_mem List.not_mem_nil
  | cons x xs ih =>
      rw [List.flatMap_cons]
      exact (h x List.mem_cons_self).append (ih fun y hy => h y (List.mem_cons_of_mem _ hy))

end Order

/-! ## The machine -/

variable {ε κ ρ : Type*} [DecidableEq ρ] (program : ε → κ → List ρ)

/-- The lock a transaction waits for, or the first of its program that it lacks. -/
def Session.wanted (committed : ε) (t : Session κ ρ) : Option ρ :=
  match t.waiting with
  | some l => some l
  | none => (program committed t.kind).find? fun l => l ∉ t.held

/-- Another transaction holds the lock. -/
def State.taken (s : State ε κ ρ) (pid : Nat) (l : ρ) : Bool :=
  s.sessions.any fun u => u.pid ≠ pid && l ∈ u.held

def Session.asked (l : ρ) (taken : Bool) (t : Session κ ρ) : Session κ ρ :=
  if taken then { t with waiting := some l } else { t with held := l :: t.held, waiting := none }

def step (s : State ε κ ρ) : Action ε κ → Option (State ε κ ρ)
  | .start pid kind =>
      if s.sessions.any fun u => u.pid = pid then none
      else some { s with sessions := s.sessions ++ [{ pid := pid, kind := kind }] }
  | .request pid =>
      (s.sessions.find? fun u => u.pid = pid).bind fun t =>
        (t.wanted program s.committed).map fun l => { s with
          sessions := updateWhere (fun u => u.pid = pid) (Session.asked l (s.taken pid l))
            s.sessions }
  | .release pid committed => some {
      committed := committed, sessions := deleteWhere (fun u => u.pid = pid) s.sessions }

/-- Whatever is committed, transactions of the kind take `l` before `l'`. -/
def Precedes (kind : κ) (l l' : ρ) : Prop :=
  ∀ committed, Leads l l' (program committed kind)

/-! ## The invariant -/

structure Inv (s : State ε κ ρ) : Prop where
  pids : (s.sessions.map Session.pid).Nodup
  exclusive : ∀ t ∈ s.sessions, ∀ u ∈ s.sessions, ∀ l, l ∈ t.held → l ∈ u.held → t.pid = u.pid
  waiting : ∀ t ∈ s.sessions, ∀ l, t.waiting = some l → l ∉ t.held
  ordered : ∀ t ∈ s.sessions, ∀ l l', Precedes program t.kind l l' →
    l' ∈ t.held ∨ t.waiting = some l' → l ∈ t.held

theorem Inv.wanted {s : State ε κ ρ} (h : Inv program s) {t : Session κ ρ} (ht : t ∈ s.sessions)
    {l : ρ} (hl : t.wanted program s.committed = some l) :
    l ∉ t.held ∧ ∀ l', Precedes program t.kind l' l → l' ∈ t.held := by
  unfold Session.wanted at hl
  split at hl
  · rename_i hwaiting
    cases hl
    exact ⟨h.waiting t ht l hwaiting, fun l' hprec => h.ordered t ht l' l hprec (.inr hwaiting)⟩
  · obtain ⟨hnew, front, back, hsplit, hfront⟩ := List.find?_eq_some_iff_append.mp hl
    refine ⟨of_decide_eq_true hnew, ?_⟩
    intro l' hprec
    have hheld := hfront l' (hprec s.committed front back hsplit)
    simpa using hheld

theorem Inv.request {s : State ε κ ρ} (h : Inv program s) {t : Session κ ρ}
    (ht : t ∈ s.sessions) {l : ρ} (hl : t.wanted program s.committed = some l) :
    Inv program { s with
      sessions := updateWhere (fun u => u.pid = t.pid) (Session.asked l (s.taken t.pid l))
        s.sessions } := by
  obtain ⟨hnew, hbefore⟩ := h.wanted program ht hl
  have hone : ∀ u ∈ s.sessions, u.pid = t.pid → u = t :=
    fun u hu hpid => List.inj_on_of_nodup_map h.pids hu ht hpid
  have hpid : ∀ u : Session κ ρ, (u.asked l (s.taken t.pid l)).pid = u.pid := by
    intro u
    unfold Session.asked
    split <;> rfl
  have hkind : ∀ u : Session κ ρ, (u.asked l (s.taken t.pid l)).kind = u.kind := by
    intro u
    unfold Session.asked
    split <;> rfl
  -- A session after the step is the one that asked, or one that did not move.
  have hcases : ∀ u' ∈ updateWhere (fun u => decide (u.pid = t.pid))
      (Session.asked l (s.taken t.pid l)) s.sessions,
      u' = t.asked l (s.taken t.pid l) ∨ u' ∈ s.sessions ∧ u'.pid ≠ t.pid := by
    intro u' hu'
    obtain ⟨u, hu, rfl⟩ := mem_updateWhere.mp hu'
    by_cases hup : u.pid = t.pid
    · rw [if_pos (decide_eq_true hup), hone u hu hup]
      exact .inl rfl
    · rw [if_neg (by simpa using hup)]
      exact .inr ⟨hu, hup⟩
  -- Nobody else holds a lock that is granted.
  have hfree : ∀ u ∈ s.sessions, u.pid ≠ t.pid → s.taken t.pid l = false → l ∉ u.held := by
    intro u hu hne hfree hmem
    have hnone := List.any_eq_false.mp hfree u hu
    simp [hne, hmem] at hnone
  have hheld : ∀ l', l' ∈ (t.asked l (s.taken t.pid l)).held →
      l' ∈ t.held ∨ l' = l ∧ s.taken t.pid l = false := by
    intro l' hmem
    unfold Session.asked at hmem
    split at hmem
    · exact .inl hmem
    · rename_i hnot
      rcases List.mem_cons.mp hmem with rfl | hmem
      · exact .inr ⟨rfl, by simpa using hnot⟩
      · exact .inl hmem
  have hkept : ∀ l', l' ∈ t.held → l' ∈ (t.asked l (s.taken t.pid l)).held := by
    intro l' hmem
    unfold Session.asked
    split
    · exact hmem
    · exact List.mem_cons_of_mem _ hmem
  have hwaits : ∀ l', (t.asked l (s.taken t.pid l)).waiting = some l' →
      l' = l ∧ (t.asked l (s.taken t.pid l)).held = t.held := by
    intro l' hwait
    unfold Session.asked at hwait ⊢
    split at hwait
    · rename_i htaken
      rw [if_pos htaken]
      exact ⟨(Option.some.inj hwait).symm, rfl⟩
    · cases hwait
  refine ⟨?_, ?_, ?_, ?_⟩
  · rw [map_updateWhere hpid]
    exact h.pids
  · intro a ha b hb l' hla hlb
    rcases hcases a ha with rfl | ⟨ha', hapid⟩ <;> rcases hcases b hb with rfl | ⟨hb', hbpid⟩
    · rfl
    · rw [hpid]
      rcases hheld l' hla with hold | ⟨rfl, hnot⟩
      · exact h.exclusive t ht b hb' l' hold hlb
      · exact absurd hlb (hfree b hb' hbpid hnot)
    · rw [hpid]
      rcases hheld l' hlb with hold | ⟨rfl, hnot⟩
      · exact h.exclusive a ha' t ht l' hla hold
      · exact absurd hla (hfree a ha' hapid hnot)
    · exact h.exclusive a ha' b hb' l' hla hlb
  · intro a ha l' hwait
    rcases hcases a ha with rfl | ⟨ha, -⟩
    · obtain ⟨rfl, hsame⟩ := hwaits l' hwait
      rw [hsame]
      exact hnew
    · exact h.waiting a ha l' hwait
  · intro a ha l' l'' hprec hor
    rcases hcases a ha with rfl | ⟨ha, -⟩
    · rw [hkind] at hprec
      apply hkept
      rcases hor with hmem | hwait
      · rcases hheld l'' hmem with hold | ⟨rfl, -⟩
        · exact h.ordered t ht l' l'' hprec (.inl hold)
        · exact hbefore l' hprec
      · obtain ⟨rfl, -⟩ := hwaits l'' hwait
        exact hbefore l' hprec
    · exact h.ordered a ha l' l'' hprec hor

theorem Inv.step {s s' : State ε κ ρ} {a : Action ε κ} (h : Inv program s)
    (hstep : Locks.step program s a = some s') : Inv program s' := by
  cases a with
  | start pid kind =>
      simp only [Locks.step] at hstep
      split at hstep
      · cases hstep
      · rename_i hfresh
        cases hstep
        have hnew : ∀ t ∈ s.sessions, t.pid ≠ pid := by simpa using hfresh
        refine ⟨?_, ?_, ?_, ?_⟩
        · rw [List.map_append]
          refine List.nodup_append.mpr ⟨h.pids, List.nodup_singleton _, ?_⟩
          rintro p hp p' hp' rfl
          obtain ⟨t, ht, rfl⟩ := List.mem_map.mp hp
          exact hnew t ht (List.mem_singleton.mp hp')
        · intro t ht u hu l hlt hlu
          rcases List.mem_append.mp ht with ht | ht
          · rcases List.mem_append.mp hu with hu | hu
            · exact h.exclusive t ht u hu l hlt hlu
            · rw [List.mem_singleton.mp hu] at hlu
              cases hlu
          · rw [List.mem_singleton.mp ht] at hlt
            cases hlt
        · intro t ht l hwait
          rcases List.mem_append.mp ht with ht | ht
          · exact h.waiting t ht l hwait
          · rw [List.mem_singleton.mp ht] at hwait
            cases hwait
        · intro t ht l l' hprec hor
          rcases List.mem_append.mp ht with ht | ht
          · exact h.ordered t ht l l' hprec hor
          · rw [List.mem_singleton.mp ht] at hor
            rcases hor with hmem | hwait
            · cases hmem
            · cases hwait
  | request pid =>
      obtain ⟨t, ht, hstep⟩ := Option.bind_eq_some_iff.mp hstep
      obtain ⟨l, hl, rfl⟩ := Option.map_eq_some_iff.mp hstep
      have hpid : t.pid = pid := by simpa using List.find?_some ht
      subst hpid
      exact h.request program (List.mem_of_find?_eq_some ht) hl
  | release pid committed =>
      cases hstep
      have hsub : ∀ t ∈ deleteWhere (fun u => decide (u.pid = pid)) s.sessions, t ∈ s.sessions :=
        fun t ht => (mem_deleteWhere.mp ht).1
      refine ⟨?_, ?_, ?_, ?_⟩
      · exact h.pids.sublist (List.filter_sublist.map _)
      · exact fun t ht u hu => h.exclusive t (hsub t ht) u (hsub u hu)
      · exact fun t ht => h.waiting t (hsub t ht)
      · exact fun t ht => h.ordered t (hsub t ht)

omit [DecidableEq ρ] in
theorem inv_idle (committed : ε) : Inv program (⟨committed, []⟩ : State ε κ ρ) :=
  ⟨List.nodup_nil, by simp, by simp, by simp⟩

theorem inv_run (committed : ε) (as : List (Action ε κ)) :
    EveryStep (Locks.step program) (fun _ _ s' => Inv program s')
      (⟨committed, []⟩ : State ε κ ρ) as :=
  everyStep_of_invariant (I := Inv program) (C := fun _ _ _ => True)
    (fun _ _ _ h _ hstep => h.step program hstep) (fun _ _ _ h _ hstep => h.step program hstep)
    (inv_idle program committed) (everyStep_of_forall_mem fun _ _ => trivial)

/-! ## Mutual waits -/

/-- `t` waits for `l`, which `u` holds, and `u` waits for `l'`, which `t` holds. -/
structure MutualWait (t u : Session κ ρ) (l l' : ρ) : Prop where
  waits : t.waiting = some l
  holder : l ∈ u.held
  waits' : u.waiting = some l'
  holder' : l' ∈ t.held

omit [DecidableEq ρ] in
/-- Neither program takes the two locks in the order that the other one waits in. -/
theorem MutualWait.opposed {s : State ε κ ρ} (h : Inv program s) {t u : Session κ ρ}
    (ht : t ∈ s.sessions) (hu : u ∈ s.sessions) {l l' : ρ} (hwait : MutualWait t u l l') :
    ¬ Precedes program t.kind l l' ∧ ¬ Precedes program u.kind l' l := by
  constructor
  · intro hprec
    exact h.waiting t ht l hwait.waits (h.ordered t ht l l' hprec (.inl hwait.holder'))
  · intro hprec
    exact h.waiting u hu l' hwait.waits' (h.ordered u hu l' l hprec (.inl hwait.holder))

/-- A transaction that asks for a lock of another one waits. -/
theorem request_taken {s : State ε κ ρ} (h : Inv program s) {t u : Session κ ρ}
    (ht : t ∈ s.sessions) (hu : u ∈ s.sessions) (hne : t.pid ≠ u.pid) {l : ρ}
    (hl : t.wanted program s.committed = some l) (hheld : l ∈ u.held) :
    Locks.step program s (.request t.pid) = some { s with
      sessions := updateWhere (fun v => v.pid = t.pid) (Session.asked l true) s.sessions } := by
  have hfind : (s.sessions.find? fun v => v.pid = t.pid) = some t := by
    obtain ⟨front, back, hsplit⟩ := List.append_of_mem ht
    refine List.find?_eq_some_iff_append.mpr ⟨decide_eq_true rfl, front, back, hsplit, ?_⟩
    intro v hv
    have hpids := h.pids
    rw [hsplit, List.map_append, List.map_cons] at hpids
    have hnot := (List.nodup_append.mp hpids).2.2 v.pid (List.mem_map_of_mem hv) t.pid
      List.mem_cons_self
    simpa using hnot
  have htaken : s.taken t.pid l = true := by
    refine List.any_eq_true.mpr ⟨u, hu, ?_⟩
    simp [hne.symm, hheld]
  simp only [Locks.step, hfind, hl, Option.bind_some, Option.map_some, htaken]

/-- Two transactions that want a lock of each other end up in a mutual wait. -/
theorem mutualWait_of_wanted {s : State ε κ ρ} (h : Inv program s) {t u : Session κ ρ}
    (ht : t ∈ s.sessions) (hu : u ∈ s.sessions) {l l' : ρ}
    (hl : t.wanted program s.committed = some l) (hheld : l ∈ u.held)
    (hl' : u.wanted program s.committed = some l') (hheld' : l' ∈ t.held) :
    ∃ s', exec (Locks.step program) s [.request t.pid, .request u.pid] = some s' ∧
      ∃ t' ∈ s'.sessions, ∃ u' ∈ s'.sessions, MutualWait t' u' l l' := by
  have hne : t.pid ≠ u.pid := by
    intro hpid
    obtain rfl := List.inj_on_of_nodup_map h.pids ht hu hpid
    exact (h.wanted program ht hl).1 hheld
  have hfirst := request_taken program h ht hu hne hl hheld
  have hinv := h.step program hfirst
  have ht' : { t with waiting := some l } ∈
      updateWhere (fun v => decide (v.pid = t.pid)) (Session.asked l true) s.sessions :=
    mem_updateWhere.mpr ⟨t, ht, by rw [if_pos (decide_eq_true rfl)]; rfl⟩
  have hu' : u ∈ updateWhere (fun v => decide (v.pid = t.pid)) (Session.asked l true) s.sessions :=
    mem_updateWhere.mpr ⟨u, hu, by rw [if_neg (by simpa using hne.symm)]⟩
  have hsecond := request_taken program hinv hu' ht' hne.symm hl' hheld'
  refine ⟨_, by rw [exec_cons, hfirst, Option.bind_some, exec_cons, hsecond]; rfl, ?_⟩
  refine ⟨{ t with waiting := some l }, mem_updateWhere.mpr ⟨_, ht', ?_⟩,
    { u with waiting := some l' }, mem_updateWhere.mpr ⟨u, hu', ?_⟩, rfl, hheld, rfl, hheld'⟩
  · rw [if_neg (by simpa using hne)]
  · rw [if_pos (decide_eq_true rfl)]
    rfl

end ExternalStorage.Library.Locks
