import Mathlib.Data.List.Basic

/-!
# Parties that exclude each other

Each party of a list holds at most one lock of a kind.  A party takes a lock that nobody
holds, so that no two parties come to hold the same one.
-/

namespace ExternalStorage.Library.Exclusion

variable {σ κ : Type*} {hold : σ → Option κ} {parties : List σ}

def Exclusive (hold : σ → Option κ) (parties : List σ) : Prop :=
  ∀ (i j : Nat) a b k, parties[i]? = some a → parties[j]? = some b → hold a = some k → hold b = some k →
    i = j

def Free (hold : σ → Option κ) (parties : List σ) (k : κ) : Prop :=
  ∀ a ∈ parties, hold a ≠ some k

theorem exclusive_nil : Exclusive hold [] := by
  intro i j a b k hi
  cases hi

/-- Two places that hold one lock are one place. -/
theorem Exclusive.eq (h : Exclusive hold parties) {i : Nat} {a b : σ} {k : κ}
    (hi : parties[i]? = some a) (ha : hold a = some k) (hb : b ∈ parties)
    (hbk : hold b = some k) : a = b := by
  obtain ⟨j, hj⟩ := List.mem_iff_getElem?.mp hb
  have hij : i = j := h i j a b k hi hj ha hbk
  rw [hij] at hi
  exact Option.some.inj (hi.symm.trans hj)

theorem Exclusive.set (h : Exclusive hold parties) {i : Nat} {a a' : σ}
    (hi : parties[i]? = some a)
    (hnew : ∀ k, hold a' = some k → hold a = some k ∨ Free hold parties k) :
    Exclusive hold (parties.set i a') := by
  have hother : ∀ j b k, (parties.set i a')[j]? = some b → hold b = some k →
      hold a' = some k → i = j := by
    intro j b k hj hb ha'
    by_contra hne
    rw [List.getElem?_set_ne hne] at hj
    rcases hnew k ha' with ha | hfree
    · exact hne (h i j a b k hi hj ha hb)
    · exact hfree b (List.mem_of_getElem? hj) hb
  intro j l b c k hj hl hb hc
  by_cases hij : i = j
  · subst hij
    rw [List.getElem?_set_self', hi] at hj
    cases hj
    exact hother l c k hl hc hb
  · by_cases hil : i = l
    · subst hil
      rw [List.getElem?_set_self', hi] at hl
      cases hl
      exact (hother j b k hj hb hc).symm
    · rw [List.getElem?_set_ne hij] at hj
      rw [List.getElem?_set_ne hil] at hl
      exact h j l b c k hj hl hb hc

theorem Exclusive.append (h : Exclusive hold parties) {a : σ}
    (hnew : ∀ k, hold a = some k → Free hold parties k) : Exclusive hold (parties ++ [a]) := by
  have hplace : ∀ j b, (parties ++ [a])[j]? = some b →
      parties[j]? = some b ∨ j = parties.length ∧ b = a := by
    intro j b hj
    rw [List.getElem?_append] at hj
    split at hj
    · exact .inl hj
    · rename_i hle
      rw [List.getElem?_singleton] at hj
      split at hj
      · exact .inr ⟨by omega, (Option.some.inj hj).symm⟩
      · cases hj
  intro i j b c k hi hj hb hc
  rcases hplace i b hi with hi' | ⟨rfl, rfl⟩ <;> rcases hplace j c hj with hj' | ⟨rfl, rfl⟩
  · exact h i j b c k hi' hj' hb hc
  · exact absurd hb (hnew k hc b (List.mem_of_getElem? hi'))
  · exact absurd hc (hnew k hb c (List.mem_of_getElem? hj'))
  · rfl

end ExternalStorage.Library.Exclusion
