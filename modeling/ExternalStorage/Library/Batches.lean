import Mathlib.Data.List.Basic

/-!
# Loops that go on after a failure

The body takes the state on, whether it fails or not.  A failure that is caught lets the loop
go on, any other ends it.  Where an invariant tells how the body ends at an element, the
elements that the loop attempts, and those it fails at, can be told from the list alone.
-/

namespace ExternalStorage.Library.Batches

variable {α σ ε β : Type*}

/-- What a loop leaves: the state, what the body returned and how it failed. -/
structure Batch (α σ ε β : Type*) where
  state : σ
  returned : List (α × β)
  failed : List (α × ε)

def Batch.returning (a : α) (b : β) (r : Batch α σ ε β) : Batch α σ ε β :=
  { r with returned := (a, b) :: r.returned }

def Batch.failing (a : α) (e : ε) (r : Batch α σ ε β) : Batch α σ ε β :=
  { r with failed := (a, e) :: r.failed }

def forEach (caught : ε → Bool) (body : σ → α → σ × Except ε β) : σ → List α → Batch α σ ε β
  | s, [] => ⟨s, [], []⟩
  | s, a :: as =>
      match body s a with
      | (t, .ok b) => (forEach caught body t as).returning a b
      | (t, .error e) =>
          if caught e then (forEach caught body t as).failing a e else ⟨t, [], [(a, e)]⟩

/-- How the body ends at an element. -/
inductive Fate where
  | returns | fails | stops
  deriving DecidableEq, Repr

def fateOf (caught : ε → Bool) : Except ε β → Fate
  | .ok _ => .returns
  | .error e => if caught e then .fails else .stops

/-- The elements up to the first that stops the loop; `done` are those already behind it. -/
def attempted (fate : List α → α → Fate) : List α → List α → List α
  | _, [] => []
  | done, a :: as =>
      if fate done a = .stops then [a] else a :: attempted fate (done ++ [a]) as

def failures (fate : List α → α → Fate) : List α → List α → List α
  | _, [] => []
  | done, a :: as =>
      match fate done a with
      | .returns => failures fate (done ++ [a]) as
      | .fails => a :: failures fate (done ++ [a]) as
      | .stops => [a]

section Run

variable {caught : ε → Bool} {body : σ → α → σ × Except ε β} {fate : List α → α → Fate}
  {I J : List α → σ → Prop}

theorem forEach_spec_from {all done as : List α} {s : σ} (hall : all = done ++ as)
    (hfate : ∀ done a rest s, all = done ++ a :: rest → I done s →
      fateOf caught (body s a).2 = fate done a)
    (hstep : ∀ done a rest s, all = done ++ a :: rest → I done s → fate done a ≠ .stops →
      I (done ++ [a]) (body s a).1)
    (hend : ∀ done s, I done s → J done s)
    (hstop : ∀ done a rest s, all = done ++ a :: rest → I done s → fate done a = .stops →
      J (done ++ [a]) (body s a).1)
    (hinit : I done s) :
    J (done ++ attempted fate done as) (forEach caught body s as).state ∧
      (forEach caught body s as).failed.map Prod.fst = failures fate done as := by
  induction as generalizing done s with
  | nil =>
      refine ⟨?_, rfl⟩
      rw [attempted, List.append_nil]
      exact hend done s hinit
  | cons a as ih =>
      have hfated := hfate done a as s hall hinit
      have hstepped := hstep done a as s hall hinit
      have hstopped := hstop done a as s hall hinit
      have hall' : all = (done ++ [a]) ++ as := by rw [hall, List.append_assoc, List.singleton_append]
      rw [forEach, attempted, failures]
      cases hbody : body s a with
      | mk t x =>
          rw [hbody] at hfated hstepped hstopped
          cases x with
          | ok b =>
              have hreturns : fate done a = .returns := hfated.symm
              rw [hreturns] at hstepped ⊢
              obtain ⟨hstate, hfailed⟩ := ih hall' (hstepped Fate.noConfusion)
              rw [if_neg Fate.noConfusion, List.append_cons]
              exact ⟨hstate, hfailed⟩
          | error e =>
              rw [fateOf] at hfated
              by_cases hcaught : caught e = true
              · rw [if_pos hcaught] at hfated
                rw [← hfated] at hstepped ⊢
                obtain ⟨hstate, hfailed⟩ := ih hall' (hstepped Fate.noConfusion)
                dsimp only
                rw [if_pos hcaught, if_neg Fate.noConfusion, List.append_cons]
                exact ⟨hstate, congrArg (a :: ·) hfailed⟩
              · rw [if_neg hcaught] at hfated
                rw [← hfated] at hstopped ⊢
                dsimp only
                rw [if_neg hcaught, if_pos rfl]
                exact ⟨hstopped rfl, rfl⟩

/-- The rule: an invariant under which the fate of the next element is known. -/
theorem forEach_spec {all : List α} {s : σ}
    (hfate : ∀ done a rest s, all = done ++ a :: rest → I done s →
      fateOf caught (body s a).2 = fate done a)
    (hstep : ∀ done a rest s, all = done ++ a :: rest → I done s → fate done a ≠ .stops →
      I (done ++ [a]) (body s a).1)
    (hend : ∀ done s, I done s → J done s)
    (hstop : ∀ done a rest s, all = done ++ a :: rest → I done s → fate done a = .stops →
      J (done ++ [a]) (body s a).1)
    (hinit : I [] s) :
    J (attempted fate [] all) (forEach caught body s all).state ∧
      (forEach caught body s all).failed.map Prod.fst = failures fate [] all :=
  forEach_spec_from (List.nil_append all).symm hfate hstep hend hstop hinit

end Run

section Attempts

variable {fate : List α → α → Fate}

theorem mem_of_mem_attempted {done as : List α} {a : α} (h : a ∈ attempted fate done as) :
    a ∈ as := by
  induction as generalizing done with
  | nil => exact h
  | cons b as ih =>
      rw [attempted] at h
      split at h
      · rw [List.mem_singleton] at h
        exact h ▸ List.mem_cons_self
      · rcases List.mem_cons.mp h with rfl | h
        · exact List.mem_cons_self
        · exact List.mem_cons_of_mem _ (ih h)

/-- An element is attempted when none before it stops the loop. -/
theorem mem_attempted_split {done front back : List α} {a : α}
    (h : ∀ f b g, front = f ++ b :: g → fate (done ++ f) b ≠ .stops) :
    a ∈ attempted fate done (front ++ a :: back) := by
  induction front generalizing done with
  | nil =>
      rw [List.nil_append, attempted]
      split
      · exact List.mem_singleton_self a
      · exact List.mem_cons_self
  | cons b front ih =>
      rw [List.cons_append, attempted]
      have hgo := h [] b front rfl
      rw [List.append_nil] at hgo
      rw [if_neg hgo]
      apply List.mem_cons_of_mem
      apply ih
      intro f c g hfront
      rw [List.append_assoc]
      exact h (b :: f) c g (by rw [hfront]; rfl)

/-- The elements before an attempted one, in a list without repetitions, do not stop it. -/
theorem not_stops_of_mem_attempted {done front back : List α} {a b : α}
    (hnodup : (front ++ a :: back).Nodup) (h : a ∈ attempted fate done (front ++ a :: back))
    {f g : List α} (hfront : front = f ++ b :: g) : fate (done ++ f) b ≠ .stops := by
  subst hfront
  induction f generalizing done with
  | nil =>
      intro hstops
      rw [List.append_nil] at hstops
      rw [List.nil_append, List.cons_append, attempted, if_pos hstops, List.mem_singleton] at h
      subst h
      rw [List.nil_append, List.cons_append, List.nodup_cons] at hnodup
      exact hnodup.1 (List.mem_append_right _ List.mem_cons_self)
  | cons c f ih =>
      rw [List.cons_append, List.cons_append] at h hnodup
      have hne : a ≠ c := by
        rintro rfl
        exact (List.nodup_cons.mp hnodup).1 (List.mem_append_right _ List.mem_cons_self)
      rw [attempted] at h
      split at h
      · exact absurd (List.mem_singleton.mp h) hne
      · have hgo := ih (List.nodup_cons.mp hnodup).2 ((List.mem_cons.mp h).resolve_left hne)
        rwa [List.append_assoc] at hgo

end Attempts

end ExternalStorage.Library.Batches
