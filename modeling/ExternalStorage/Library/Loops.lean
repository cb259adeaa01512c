import Mathlib.Data.List.Basic

/-!
# Loops that may fail

A loop over a list whose body may return early is `List.foldlM` in `Except`.  An invariant
speaks of the elements that are behind the loop and of its state: it holds at the end of
a loop that comes to its end, and a body that goes on under it makes the loop come to its
end.  A body that takes the state on before it fails is one of `tryEach`.
-/

namespace ExternalStorage.Library.Loops

variable {α σ ε : Type*} {body : σ → α → Except ε σ} {I : List α → σ → Prop}

theorem foldlM_cons_eq_ok {a : α} {as : List α} {s r : σ} :
    (a :: as).foldlM body s = .ok r ↔ ∃ t, body s a = .ok t ∧ as.foldlM body t = .ok r := by
  rw [List.foldlM_cons]
  cases hbody : body s a with
  | error e =>
      constructor
      · intro h
        cases h
      · rintro ⟨t, ht, -⟩
        cases ht
  | ok t =>
      constructor
      · exact fun h => ⟨t, rfl, h⟩
      · rintro ⟨t', ht, h⟩
        cases ht
        exact h

/-- A loop that comes to its end has passed every element. -/
theorem foldlM_eq_ok_at {done todo : List α} {a : α} {s r : σ}
    (h : (done ++ a :: todo).foldlM body s = .ok r) :
    ∃ t, done.foldlM body s = .ok t ∧ ∃ u, body t a = .ok u := by
  induction done generalizing s with
  | nil =>
      obtain ⟨u, hu, -⟩ := foldlM_cons_eq_ok.mp h
      exact ⟨s, rfl, u, hu⟩
  | cons b done ih =>
      obtain ⟨t, ht, hloop⟩ := foldlM_cons_eq_ok.mp h
      obtain ⟨t', ht', hu⟩ := ih hloop
      exact ⟨t', foldlM_cons_eq_ok.mpr ⟨t, ht, ht'⟩, hu⟩

/-- A loop that fails does so at one of its elements. -/
theorem foldlM_eq_error {e : ε} {as : List α} {s : σ} (h : as.foldlM body s = .error e) :
    ∃ a ∈ as, ∃ t, body t a = .error e := by
  induction as generalizing s with
  | nil => cases h
  | cons a as ih =>
      rw [List.foldlM_cons] at h
      cases hbody : body s a with
      | error e' =>
          rw [hbody] at h
          cases h
          exact ⟨a, List.mem_cons_self, s, hbody⟩
      | ok t =>
          rw [hbody] at h
          obtain ⟨b, hb, t', ht'⟩ := ih h
          exact ⟨b, List.mem_cons_of_mem _ hb, t', ht'⟩

theorem foldlM_invariant_from {s r : σ} {front back : List α}
    (step : ∀ done a s t, I done s → body s a = .ok t → I (done ++ [a]) t) (init : I front s)
    (loop : back.foldlM body s = .ok r) : I (front ++ back) r := by
  induction back generalizing front s with
  | nil =>
      cases loop
      rw [List.append_nil]
      exact init
  | cons a as ih =>
      obtain ⟨t, ht, hloop⟩ := foldlM_cons_eq_ok.mp loop
      rw [List.append_cons]
      exact ih (step front a s t init ht) hloop

/-- The invariant rule. -/
theorem foldlM_invariant {s r : σ} {as : List α}
    (step : ∀ done a s t, I done s → body s a = .ok t → I (done ++ [a]) t) (init : I [] s)
    (loop : as.foldlM body s = .ok r) : I as r := by
  have hend := foldlM_invariant_from step init loop
  rwa [List.nil_append] at hend

theorem foldlM_total_from {s : σ} {front back : List α}
    (step : ∀ done a todo s, front ++ back = done ++ a :: todo → I done s →
      ∃ t, body s a = .ok t ∧ I (done ++ [a]) t) (init : I front s) :
    ∃ r, back.foldlM body s = .ok r ∧ I (front ++ back) r := by
  induction back generalizing front s with
  | nil =>
      refine ⟨s, rfl, ?_⟩
      rw [List.append_nil]
      exact init
  | cons a as ih =>
      obtain ⟨t, ht, hinv⟩ := step front a as s rfl init
      have hlist : front ++ a :: as = (front ++ [a]) ++ as := List.append_cons front a as
      rw [hlist] at step
      obtain ⟨r, hr, hend⟩ := ih step hinv
      refine ⟨r, foldlM_cons_eq_ok.mpr ⟨t, ht, hr⟩, ?_⟩
      rw [hlist]
      exact hend

/-- The rule for a loop that comes to its end; the body may use where it is in the list. -/
theorem foldlM_total {s : σ} {as : List α}
    (step : ∀ done a todo s, as = done ++ a :: todo → I done s →
      ∃ t, body s a = .ok t ∧ I (done ++ [a]) t) (init : I [] s) :
    ∃ r, as.foldlM body s = .ok r ∧ I as r := by
  have hend : ∃ r, as.foldlM body s = .ok r ∧ I ([] ++ as) r :=
    foldlM_total_from (fun done a todo s heq => step done a todo s heq) init
  exact hend

/-! ## Loops that leave what they have done -/

section Reach

variable {β γ : Type*} {body : σ → α → σ × Except ε γ}

/-- The body takes the state on also where it fails. -/
def tryEach (body : σ → α → σ × Except ε γ) : σ → List α → σ × Except ε Unit
  | s, [] => (s, .ok ())
  | s, a :: as =>
      match body s a with
      | (t, .error e) => (t, .error e)
      | (t, .ok _) => tryEach body t as

/-- How far a loop comes, as it can be told without its state: the elements it comes to, and
those that are left, from the one that stops it on. -/
structure Reach (α β : Type*) where
  state : β
  reached : List α
  left : List α

def reach (stops : β → α → Bool) (advance : β → α → β) : β → List α → Reach α β
  | b, [] => ⟨b, [], []⟩
  | b, a :: as =>
      if stops b a then
        ⟨advance b a, [a], a :: as⟩
      else
        let r := reach stops advance (advance b a) as
        { r with reached := a :: r.reached }

theorem tryEach_of_ok {s t : σ} {a : α} {as : List α} {x : γ} (h : body s a = (t, .ok x)) :
    tryEach body s (a :: as) = tryEach body t as := by
  rw [tryEach, h]

theorem tryEach_of_error {s t : σ} {a : α} {as : List α} {e : ε}
    (h : body s a = (t, .error e)) : tryEach body s (a :: as) = (t, .error e) := by
  rw [tryEach, h]

section Rule

variable {stops : β → α → Bool} {advance : β → α → β} {I : List α → β → σ → Prop}
  {J : List α → α → β → σ → Prop}

theorem tryEach_reach_from {all done as : List α} {b : β} {s : σ} (hall : all = done ++ as)
    (hgo : ∀ done a rest b s, all = done ++ a :: rest → I done b s → stops b a = false →
      ∃ t x, body s a = (t, .ok x) ∧ I (done ++ [a]) (advance b a) t)
    (hstop : ∀ done a rest b s, all = done ++ a :: rest → I done b s → stops b a = true →
      ∃ t e, body s a = (t, .error e) ∧ J done a (advance b a) t)
    (init : I done b s) :
    (∃ b' t, reach stops advance b as = ⟨b', as, []⟩ ∧ tryEach body s as = (t, .ok ()) ∧
        I all b' t) ∨
      ∃ front a back b' t e, as = front ++ a :: back ∧
        reach stops advance b as = ⟨b', front ++ [a], a :: back⟩ ∧
        tryEach body s as = (t, .error e) ∧ J (done ++ front) a b' t := by
  induction as generalizing done b s with
  | nil =>
      left
      rw [List.append_nil] at hall
      exact ⟨b, s, rfl, rfl, hall ▸ init⟩
  | cons a as ih =>
      rw [reach]
      cases hstops : stops b a with
      | true =>
          obtain ⟨t, e, hbody, hJ⟩ := hstop done a as b s hall init hstops
          refine .inr ⟨[], a, as, advance b a, t, e, rfl, rfl, tryEach_of_error hbody, ?_⟩
          rw [List.append_nil]
          exact hJ
      | false =>
          obtain ⟨t, x, hbody, hI⟩ := hgo done a as b s hall init hstops
          rw [if_neg Bool.false_ne_true, tryEach_of_ok hbody]
          have hall' : all = (done ++ [a]) ++ as := hall.trans (List.append_cons done a as)
          rcases ih hall' hI with ⟨b', t', hreach, htry, hend⟩ |
              ⟨front, c, back, b', t', e, has, hreach, htry, hend⟩
          · exact .inl ⟨b', t', by rw [hreach], htry, hend⟩
          · refine .inr ⟨a :: front, c, back, b', t', e, ?_, ?_, htry, ?_⟩
            · rw [has]
              rfl
            · rw [hreach]
              rfl
            · rw [List.append_cons]
              exact hend

variable (stops advance) in
/-- The rule for a loop whose failures are known beforehand: an invariant that ties its state
to what it is told from, and what holds where it stops. -/
theorem tryEach_reach {all : List α} {b : β} {s : σ}
    (hgo : ∀ done a rest b s, all = done ++ a :: rest → I done b s → stops b a = false →
      ∃ t x, body s a = (t, .ok x) ∧ I (done ++ [a]) (advance b a) t)
    (hstop : ∀ done a rest b s, all = done ++ a :: rest → I done b s → stops b a = true →
      ∃ t e, body s a = (t, .error e) ∧ J done a (advance b a) t)
    (init : I [] b s) :
    (∃ b' t, reach stops advance b all = ⟨b', all, []⟩ ∧ tryEach body s all = (t, .ok ()) ∧
        I all b' t) ∨
      ∃ front a back b' t e, all = front ++ a :: back ∧
        reach stops advance b all = ⟨b', front ++ [a], a :: back⟩ ∧
        tryEach body s all = (t, .error e) ∧ J front a b' t :=
  tryEach_reach_from (List.nil_append all).symm hgo hstop init

end Rule

theorem tryEach_cons_fst (body : σ → α → σ × Except ε γ) (a : α) (as : List α) (s : σ) :
    (tryEach body s (a :: as)).1 = (body s a).1 ∨
      (tryEach body s (a :: as)).1 = (tryEach body (body s a).1 as).1 := by
  cases hbody : body s a with
  | mk t outcome =>
      cases outcome with
      | error e => exact .inl (by rw [tryEach_of_error hbody])
      | ok x => exact .inr (by rw [tryEach_of_ok hbody])

/-- The rule for a property of the state that says nothing of the errors. -/
theorem tryEach_keeps {I : σ → Prop} {as : List α} {s : σ}
    (step : ∀ a ∈ as, ∀ s, I s → I (body s a).1) (init : I s) : I (tryEach body s as).1 := by
  induction as generalizing s with
  | nil => exact init
  | cons a as ih =>
      have hstep := step a List.mem_cons_self s init
      rcases tryEach_cons_fst body a as s with h | h
      · rw [h]
        exact hstep
      · rw [h]
        exact ih (fun b hb => step b (List.mem_cons_of_mem _ hb)) hstep

/-- What the first turn brings about and the later ones keep. -/
theorem tryEach_cons_keeps {I : σ → Prop} {a : α} {as : List α} {s : σ}
    (step : ∀ b ∈ as, ∀ s, I s → I (body s b).1) (first : I (body s a).1) :
    I (tryEach body s (a :: as)).1 := by
  rcases tryEach_cons_fst body a as s with h | h
  · rw [h]
    exact first
  · rw [h]
    exact tryEach_keeps step first

/-- The rule for a loop that does not fail. -/
theorem tryEach_total {I : List α → σ → Prop} {all : List α} {s : σ}
    (hgo : ∀ done a rest s, all = done ++ a :: rest → I done s →
      ∃ t x, body s a = (t, .ok x) ∧ I (done ++ [a]) t) (init : I [] s) :
    ∃ t, tryEach body s all = (t, .ok ()) ∧ I all t := by
  rcases tryEach_reach (fun (_ : Unit) _ => false) (fun _ _ => ()) (b := ())
      (I := fun done _ s => I done s) (J := fun _ _ _ _ => False)
      (fun done a rest _ s hall hI _ => hgo done a rest s hall hI)
      (fun _ _ _ _ _ _ _ hstops => absurd hstops Bool.false_ne_true) init with
    ⟨-, t, -, htry, hend⟩ | ⟨_, _, _, _, _, _, -, -, -, hfalse⟩
  · exact ⟨t, htry, hend⟩
  · exact hfalse.elim

end Reach

end ExternalStorage.Library.Loops
