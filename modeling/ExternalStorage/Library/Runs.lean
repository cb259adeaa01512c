import Mathlib.Logic.Relation
import Mathlib.Data.List.Basic

/-!
# Runs of a partial step function

A concurrent program is given by a state type, a type of actions and a partial
step function: `step s a` is `none` when the action `a` cannot be taken in `s`.
An interleaving is a list of actions, and `exec` runs it.  This module holds
the two induction rules the rest of the development uses: what every step
preserves holds at the end of a run, and what every step satisfies holds of
every step of a run.  Both take a side condition on steps, so that a result can
be stated for the runs that avoid a given kind of step.
-/

namespace ExternalStorage.Library.Runs

variable {σ α : Type*} {step : σ → α → Option σ}

/-- The state after a list of actions, if each of them can be taken in turn. -/
def exec (step : σ → α → Option σ) : σ → List α → Option σ
  | s, [] => some s
  | s, a :: as => (step s a).bind fun t => exec step t as

/-- `P` holds of every transition `s —a→ t` that the actions go through. -/
def EveryStep (step : σ → α → Option σ) (P : σ → α → σ → Prop) : σ → List α → Prop
  | _, [] => True
  | s, a :: as => ∀ t, step s a = some t → P s a t ∧ EveryStep step P t as

instance decidableEveryStep {P : σ → α → σ → Prop} [∀ s a t, Decidable (P s a t)] :
    ∀ (s : σ) (as : List α), Decidable (EveryStep step P s as)
  | _, [] => isTrue trivial
  | s, a :: as =>
      match h : step s a with
      | none => isTrue fun t ht => by rw [h] at ht; cases ht
      | some t =>
          have := decidableEveryStep (P := P) t as
          decidable_of_iff (P s a t ∧ EveryStep step P t as)
            ⟨fun hP u hu => by obtain rfl : t = u := Option.some.inj (h.symm.trans hu); exact hP,
              fun hP => hP t h⟩

/-- A fallible statement as a partial step. -/
theorem toOption_eq_some {ε β : Type*} {x : Except ε β} {b : β} :
    x.toOption = some b ↔ x = .ok b := by
  cases x with
  | error e => simp [Except.toOption]
  | ok a => simp [Except.toOption]

@[simp] theorem exec_nil (s : σ) : exec step s [] = some s := rfl

theorem exec_cons (s : σ) (a : α) (as : List α) :
    exec step s (a :: as) = (step s a).bind fun t => exec step t as := rfl

theorem exec_cons_eq_some {s u : σ} {a : α} {as : List α} :
    exec step s (a :: as) = some u ↔ ∃ t, step s a = some t ∧ exec step t as = some u := by
  rw [exec_cons, Option.bind_eq_some_iff]

theorem exec_append (s : σ) (as bs : List α) :
    exec step s (as ++ bs) = (exec step s as).bind fun t => exec step t bs := by
  induction as generalizing s with
  | nil => rfl
  | cons a as ih =>
      simp only [List.cons_append, exec_cons]
      cases step s a with
      | none => rfl
      | some t => exact ih t

theorem exec_append_eq_some {s u : σ} {as bs : List α} :
    exec step s (as ++ bs) = some u ↔
      ∃ t, exec step s as = some t ∧ exec step t bs = some u := by
  rw [exec_append, Option.bind_eq_some_iff]

theorem EveryStep.tail {P : σ → α → σ → Prop} {s t : σ} {a : α} {as : List α}
    (h : EveryStep step P s (a :: as)) (ht : step s a = some t) :
    EveryStep step P t as :=
  (h t ht).2

theorem EveryStep.head {P : σ → α → σ → Prop} {s t : σ} {a : α} {as : List α}
    (h : EveryStep step P s (a :: as)) (ht : step s a = some t) : P s a t :=
  (h t ht).1

theorem EveryStep.mono {P Q : σ → α → σ → Prop} {s : σ} {as : List α}
    (h : EveryStep step P s as) (hPQ : ∀ s a t, step s a = some t → P s a t → Q s a t) :
    EveryStep step Q s as := by
  induction as generalizing s with
  | nil => trivial
  | cons a as ih =>
      intro t ht
      exact ⟨hPQ s a t ht (h.head ht), ih (h.tail ht)⟩

theorem EveryStep.and {P Q : σ → α → σ → Prop} {s : σ} {as : List α}
    (hP : EveryStep step P s as) (hQ : EveryStep step Q s as) :
    EveryStep step (fun s a t => P s a t ∧ Q s a t) s as := by
  induction as generalizing s with
  | nil => trivial
  | cons a as ih =>
      intro t ht
      exact ⟨⟨hP.head ht, hQ.head ht⟩, ih (hP.tail ht) (hQ.tail ht)⟩

theorem everyStep_of_forall_mem {Q : α → Prop} {s : σ} {as : List α} (h : ∀ a ∈ as, Q a) :
    EveryStep step (fun _ a _ => Q a) s as := by
  induction as generalizing s with
  | nil => trivial
  | cons a as ih =>
      intro t _
      exact ⟨h a List.mem_cons_self, ih fun b hb => h b (List.mem_cons_of_mem _ hb)⟩

theorem everyStep_append {P : σ → α → σ → Prop} {s : σ} {as bs : List α} :
    EveryStep step P s (as ++ bs) ↔
      EveryStep step P s as ∧ ∀ t, exec step s as = some t → EveryStep step P t bs := by
  induction as generalizing s with
  | nil => simp [EveryStep]
  | cons a as ih =>
      simp only [List.cons_append, EveryStep, exec_cons_eq_some]
      constructor
      · intro h
        refine ⟨fun t ht => ⟨(h t ht).1, (ih.mp (h t ht).2).1⟩, ?_⟩
        rintro u ⟨t, ht, hu⟩
        exact (ih.mp (h t ht).2).2 u hu
      · rintro ⟨h, hlast⟩ t ht
        exact ⟨(h t ht).1, ih.mpr ⟨(h t ht).2, fun u hu => hlast u ⟨t, ht, hu⟩⟩⟩

/-- The invariant rule: what every admitted step preserves holds at the end of a
run all of whose steps are admitted. -/
theorem exec_invariant {I : σ → Prop} {C : σ → α → σ → Prop}
    (preserved : ∀ s a t, I s → C s a t → step s a = some t → I t)
    {s u : σ} {as : List α} (init : I s) (admitted : EveryStep step C s as)
    (run : exec step s as = some u) : I u := by
  induction as generalizing s with
  | nil =>
      obtain rfl : s = u := Option.some.inj run
      exact init
  | cons a as ih =>
      obtain ⟨t, ht, hu⟩ := exec_cons_eq_some.mp run
      exact ih (preserved s a t init (admitted.head ht) ht) (admitted.tail ht) hu

/-- A run keeps an invariant as long as its steps are admitted; the first step that is not
leads to what then lasts to the end. -/
theorem exec_kept_or_lost {I J : σ → Prop} {C : σ → α → σ → Prop}
    (kept : ∀ s a t, I s → step s a = some t → C s a t → I t)
    (lost : ∀ s a t, I s → step s a = some t → ¬ C s a t → J t)
    (lasts : ∀ s a t, J s → step s a = some t → J t)
    {s u : σ} {as : List α} (init : I s) (run : exec step s as = some u) :
    (EveryStep step C s as ∧ I u) ∨ (¬ EveryStep step C s as ∧ J u) := by
  induction as generalizing s with
  | nil =>
      obtain rfl : s = u := Option.some.inj run
      exact .inl ⟨trivial, init⟩
  | cons a as ih =>
      obtain ⟨t, ht, hu⟩ := exec_cons_eq_some.mp run
      by_cases hC : C s a t
      · rcases ih (kept s a t init ht hC) hu with ⟨hsteps, hI⟩ | ⟨hsteps, hJ⟩
        · refine .inl ⟨fun t' ht' => ?_, hI⟩
          obtain rfl : t = t' := Option.some.inj (ht.symm.trans ht')
          exact ⟨hC, hsteps⟩
        · exact .inr ⟨fun h => hsteps (h.tail ht), hJ⟩
      · refine .inr ⟨fun h => hC (h.head ht), ?_⟩
        exact exec_invariant (C := fun _ _ _ => True) (fun s a t hs _ h => lasts s a t hs h)
          (lost s a t init ht hC) (everyStep_of_forall_mem (Q := fun _ => True) fun _ _ => trivial)
          hu

/-- The step rule: under an invariant, what every admitted step satisfies holds
of every step of the run. -/
theorem everyStep_of_invariant {I : σ → Prop} {C P : σ → α → σ → Prop}
    (preserved : ∀ s a t, I s → C s a t → step s a = some t → I t)
    (sound : ∀ s a t, I s → C s a t → step s a = some t → P s a t)
    {s : σ} {as : List α} (init : I s) (admitted : EveryStep step C s as) :
    EveryStep step P s as := by
  induction as generalizing s with
  | nil => trivial
  | cons a as ih =>
      intro t ht
      have hC := admitted.head ht
      exact ⟨sound s a t init hC ht, ih (preserved s a t init hC ht) (admitted.tail ht)⟩

/-- A reflexive and transitive relation that every step of a run respects relates
its two ends. -/
theorem exec_rel {R : σ → σ → Prop} (refl : ∀ s, R s s)
    (trans : ∀ s t u, R s t → R t u → R s u) {s u : σ} {as : List α}
    (steps : EveryStep step (fun s _ t => R s t) s as)
    (run : exec step s as = some u) : R s u := by
  induction as generalizing s with
  | nil =>
      obtain rfl : s = u := Option.some.inj run
      exact refl s
  | cons a as ih =>
      obtain ⟨t, ht, hu⟩ := exec_cons_eq_some.mp run
      exact trans s t u (steps.head ht) (ih (steps.tail ht) hu)

end ExternalStorage.Library.Runs
