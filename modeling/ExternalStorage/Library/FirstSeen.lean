import Mathlib.Algebra.BigOperators.Group.List.Basic
import Mathlib.Algebra.Order.Ring.Int
import Mathlib.Data.List.Induction
import Mathlib.Data.List.Nodup
import Mathlib.Data.List.Perm.Basic

/-!
# First occurrences by a key

A loop that counts each key once counts it where it meets it first.  What depends on the key
alone is the same in whatever order the elements come; what depends on the element is not.
-/

namespace ExternalStorage.Library.FirstSeen

variable {α β κ : Type*} [DecidableEq κ]

def firsts (key : α → κ) (l : List α) : List α :=
  l.foldl (fun acc a => if acc.any fun b => key b = key a then acc else acc ++ [a]) []

/-- What the first element of a key says. -/
def classOf (key : α → κ) (p : α → Bool) (l : List α) (k : κ) : Bool :=
  (l.find? fun a => key a = k).any p

variable {key : α → κ}

theorem firsts_concat (l : List α) (a : α) :
    firsts key (l ++ [a]) =
      if (firsts key l).any fun b => key b = key a then firsts key l else firsts key l ++ [a] :=
  List.foldl_concat ..

/-- Elements of one key are told apart by nothing but the key. -/
def Determines (key : α → κ) (f : α → β) (l : List α) : Prop :=
  ∀ a ∈ l, ∀ b ∈ l, key a = key b → f a = f b

/-! ## What is first -/

theorem mem_of_mem_firsts {l : List α} {a : α} (h : a ∈ firsts key l) : a ∈ l := by
  induction l using List.reverseRec with
  | nil => cases h
  | append_singleton l b ih =>
      rw [firsts_concat] at h
      split at h
      · exact List.mem_append_left _ (ih h)
      · rcases List.mem_append.mp h with hold | hnew
        · exact List.mem_append_left _ (ih hold)
        · exact List.mem_append_right _ hnew

theorem exists_mem_firsts (key : α → κ) {l : List α} {a : α} (h : a ∈ l) :
    ∃ b ∈ firsts key l, key b = key a := by
  induction l using List.reverseRec with
  | nil => cases h
  | append_singleton l c ih =>
      have hstays : ∀ b ∈ firsts key l, b ∈ firsts key (l ++ [c]) := by
        intro b hb
        rw [firsts_concat]
        split
        · exact hb
        · exact List.mem_append_left _ hb
      rcases List.mem_append.mp h with hold | hnew
      · obtain ⟨b, hb, hkey⟩ := ih hold
        exact ⟨b, hstays b hb, hkey⟩
      · obtain rfl := List.mem_singleton.mp hnew
        by_cases hseen : (firsts key l).any (fun b => key b = key a) = true
        · obtain ⟨b, hb, hkey⟩ := List.any_eq_true.mp hseen
          exact ⟨b, hstays b hb, of_decide_eq_true hkey⟩
        · refine ⟨a, ?_, rfl⟩
          rw [firsts_concat, if_neg hseen]
          exact List.mem_append_right _ List.mem_cons_self

theorem nodup_keys_firsts (l : List α) : ((firsts key l).map key).Nodup := by
  induction l using List.reverseRec with
  | nil => exact List.nodup_nil
  | append_singleton l a ih =>
      rw [firsts_concat]
      split
      · exact ih
      · rename_i hnew
        rw [List.map_append, List.nodup_append]
        refine ⟨ih, List.nodup_singleton _, ?_⟩
        rintro k hk k' hk' rfl
        obtain ⟨b, hb, rfl⟩ := List.mem_map.mp hk
        rw [List.map_singleton, List.mem_singleton] at hk'
        exact hnew (List.any_eq_true.mpr ⟨b, hb, decide_eq_true hk'⟩)

theorem find?_of_mem_firsts {l : List α} {a : α} (h : a ∈ firsts key l) :
    (l.find? fun b => key b = key a) = some a := by
  induction l using List.reverseRec with
  | nil => cases h
  | append_singleton l c ih =>
      rw [List.find?_append]
      have hcases : a ∈ firsts key l ∨
          a = c ∧ ¬ (firsts key l).any (fun b => key b = key c) = true := by
        rw [firsts_concat] at h
        split at h
        · exact .inl h
        · rename_i hnew
          rcases List.mem_append.mp h with hold | hlast
          · exact .inl hold
          · exact .inr ⟨List.mem_singleton.mp hlast, hnew⟩
      rcases hcases with hold | ⟨rfl, hnew⟩
      · rw [ih hold, Option.some_or]
      · have hnone : (l.find? fun b => key b = key a) = none := by
          rw [List.find?_eq_none]
          intro b hb hkey
          obtain ⟨b', hb', hkey'⟩ := exists_mem_firsts key hb
          exact hnew (List.any_eq_true.mpr
            ⟨b', hb', decide_eq_true (hkey'.trans (of_decide_eq_true hkey))⟩)
        rw [hnone, Option.none_or]
        exact List.find?_cons_of_pos (decide_eq_true rfl)

theorem classOf_of_mem_firsts {p : α → Bool} {l : List α} {a : α} (h : a ∈ firsts key l) :
    classOf key p l (key a) = p a := by
  rw [classOf, find?_of_mem_firsts h, Option.any_some]

/-! ## Two orders -/

/-- What the key determines is the same of the first elements in any order. -/
theorem perm_map_firsts {f : α → β} {l m : List α} (hperm : l.Perm m)
    (hf : Determines key f l) : ((firsts key l).map f).Perm ((firsts key m).map f) := by
  have hsub : ∀ {l m : List α}, l.Perm m → Determines key f l →
      ∀ t ∈ (firsts key l).map fun a => (key a, f a),
        t ∈ (firsts key m).map fun a => (key a, f a) := by
    intro l m hperm hf t ht
    obtain ⟨a, ha, rfl⟩ := List.mem_map.mp ht
    have hmem := mem_of_mem_firsts ha
    obtain ⟨b, hb, hkey⟩ := exists_mem_firsts key (hperm.mem_iff.mp hmem)
    refine List.mem_map.mpr ⟨b, hb, ?_⟩
    rw [hkey, hf b (hperm.mem_iff.mpr (mem_of_mem_firsts hb)) a hmem hkey]
  have hnodup : ∀ l : List α, ((firsts key l).map fun a => (key a, f a)).Nodup := by
    intro l
    apply List.Nodup.of_map Prod.fst
    rw [List.map_map]
    exact nodup_keys_firsts l
  have hf' : Determines key f m := fun a ha b hb =>
    hf a (hperm.mem_iff.mpr ha) b (hperm.mem_iff.mpr hb)
  have hpairs := (List.perm_ext_iff_of_nodup (hnodup l) (hnodup m)).mpr fun t =>
    ⟨hsub hperm hf t, hsub hperm.symm hf' t⟩
  have hsnd := hpairs.map Prod.snd
  rwa [List.map_map, List.map_map] at hsnd

/-- The weight of the keys whose first element is of the class. -/
def weightOf (key : α → κ) (p : α → Bool) (weight : α → Nat) (l : List α) : Nat :=
  (((firsts key l).filter p).map weight).sum

/-- The weight of the keys that are of the class in the order `l` only. -/
def turned (key : α → κ) (p : α → Bool) (weight : α → Nat) (l m : List α) : Nat :=
  (((firsts key l).filter fun a =>
    classOf key p l (key a) && !classOf key p m (key a)).map weight).sum

theorem sum_filter_eq (p : α → Bool) (weight : α → Nat) (l : List α) :
    ((l.filter p).map weight).sum = (l.map fun a => if p a then weight a else 0).sum := by
  induction l with
  | nil => rfl
  | cons a l ih =>
      cases hp : p a with
      | false =>
          rw [List.filter_cons_of_neg (by rw [hp]; exact Bool.false_ne_true), List.map_cons,
            List.sum_cons, ih, hp, if_neg Bool.false_ne_true, Nat.zero_add]
      | true =>
          rw [List.filter_cons_of_pos hp, List.map_cons, List.map_cons, List.sum_cons,
            List.sum_cons, ih, hp, if_pos rfl]

section Orders

variable {p : α → Bool} {weight : α → Nat} {l m : List α}

/-- A sum over the first elements by a property of their keys. -/
theorem sum_firsts_perm (hperm : l.Perm m) (hweight : Determines key weight l) (q : κ → Bool) :
    (((firsts key l).filter fun a => q (key a)).map weight).sum =
      (((firsts key m).filter fun a => q (key a)).map weight).sum := by
  rw [sum_filter_eq, sum_filter_eq]
  apply List.Perm.sum_eq
  apply perm_map_firsts hperm
  intro a ha b hb hkey
  dsimp only
  rw [hkey, hweight a ha b hb hkey]

theorem weightOf_eq (p : α → Bool) (weight : α → Nat) (l : List α) :
    weightOf key p weight l =
      (((firsts key l).filter fun a => classOf key p l (key a)).map weight).sum := by
  have hfilter : (firsts key l).filter p =
      (firsts key l).filter fun a => classOf key p l (key a) :=
    List.filter_congr fun a ha => (classOf_of_mem_firsts ha).symm
  rw [weightOf, hfilter]

/-- The weight of the class is what is of it in both orders and what is of it in this one. -/
theorem weightOf_split (p : α → Bool) (weight : α → Nat) (l m : List α) :
    weightOf key p weight l = turned key p weight l m +
      (((firsts key l).filter fun a =>
        classOf key p l (key a) && classOf key p m (key a)).map weight).sum := by
  rw [weightOf_eq, turned, sum_filter_eq, sum_filter_eq, sum_filter_eq, ← List.sum_map_add]
  refine congrArg List.sum (List.map_congr_left fun a _ => ?_)
  cases classOf key p l (key a) <;> cases classOf key p m (key a) <;> simp

/-- Two orders give a class the same weight exactly if what turns from one order to the other
is made up for by what turns back. -/
theorem weightOf_eq_iff (hperm : l.Perm m) (hweight : Determines key weight l) :
    weightOf key p weight l = weightOf key p weight m ↔
      turned key p weight l m = turned key p weight m l := by
  have hboth : (((firsts key l).filter fun a =>
        classOf key p l (key a) && classOf key p m (key a)).map weight).sum =
      (((firsts key m).filter fun a =>
        classOf key p m (key a) && classOf key p l (key a)).map weight).sum := by
    rw [sum_firsts_perm hperm hweight fun k => classOf key p l k && classOf key p m k]
    simp only [Bool.and_comm]
  rw [weightOf_split p weight l m, weightOf_split p weight m l, hboth]
  exact Nat.add_right_cancel_iff

/-- Where the elements of a key with any weight are of one class, nothing turns. -/
theorem turned_eq_zero (hperm : l.Perm m)
    (hclass : ∀ a ∈ l, ∀ b ∈ l, key a = key b → weight a ≠ 0 → p a = p b) :
    turned key p weight l m = 0 := by
  rw [turned, List.sum_eq_zero_iff_forall_eq_nat]
  intro n hn
  obtain ⟨a, ha, rfl⟩ := List.mem_map.mp hn
  obtain ⟨ha, hturned⟩ := List.mem_filter.mp ha
  by_contra hpos
  rw [classOf_of_mem_firsts ha, Bool.and_eq_true, Bool.not_eq_true'] at hturned
  obtain ⟨b, hb, hkey⟩ :=
    exists_mem_firsts key (hperm.mem_iff.mp (mem_of_mem_firsts ha))
  rw [← hkey, classOf_of_mem_firsts hb,
    ← hclass a (mem_of_mem_firsts ha) b (hperm.mem_iff.mpr (mem_of_mem_firsts hb)) hkey.symm hpos,
    hturned.1] at hturned
  exact Bool.noConfusion hturned.2

end Orders

end ExternalStorage.Library.FirstSeen
