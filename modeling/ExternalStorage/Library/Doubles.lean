import Mathlib.Algebra.Order.Ring.Int
import Mathlib.Data.List.Basic
import Mathlib.Data.Nat.Basic

/-!
# Whole numbers as doubles

A double has 53 significant bits, so below `2 ^ 53` every natural number is one, and beyond
it a number is rounded to the nearest.  A double is written with the fewest digits from which
it is read back.
-/

namespace ExternalStorage.Library.Doubles

/-- The distance of the doubles around `n`. -/
def unit (n : Nat) : Nat := 2 ^ (n.log2 - 52)

/-- The nearest double; of two the one whose significand is even. -/
def round (n : Nat) : Nat :=
  if unit n < 2 * (n % unit n) ∨ 2 * (n % unit n) = unit n ∧ n / unit n % 2 = 1 then
    (n / unit n + 1) * unit n
  else
    n / unit n * unit n

/-- The multiples of `10 ^ zeros` around `x`, the nearer one first. -/
def neighbours (x zeros : Nat) : List Nat :=
  if 2 * (x % 10 ^ zeros) ≤ 10 ^ zeros then
    [x / 10 ^ zeros * 10 ^ zeros, (x / 10 ^ zeros + 1) * 10 ^ zeros]
  else
    [(x / 10 ^ zeros + 1) * 10 ^ zeros, x / 10 ^ zeros * 10 ^ zeros]

/-- The number that is written for the double `x`: it ends in as many zeros as reading it
back allows, up to the 21 digits that are written without an exponent. -/
def shortest (x : Nat) : Nat :=
  (((List.range 22).reverse.flatMap (neighbours x)).find? fun y => round y = x).getD x

theorem unit_pos (n : Nat) : 0 < unit n := Nat.two_pow_pos _

theorem unit_eq_one {n : Nat} (h : n < 2 ^ 53) : unit n = 1 := by
  have hlog : n.log2 < 53 := by
    rcases Nat.eq_zero_or_pos n with rfl | hpos
    · decide
    · exact (Nat.log2_lt (Nat.pos_iff_ne_zero.mp hpos)).mpr h
  rw [unit, Nat.sub_eq_zero_of_le (Nat.le_of_lt_succ hlog), Nat.pow_zero]

/-- Every number below `2 ^ 53` is a double. -/
theorem round_eq_self {n : Nat} (h : n < 2 ^ 53) : round n = n := by
  rw [round, unit_eq_one h, Nat.mod_one, Nat.div_one, if_neg (by omega), Nat.mul_one]

theorem div_unit_le_round (n : Nat) : n / unit n * unit n ≤ round n := by
  unfold round
  split
  · exact Nat.mul_le_mul_right _ (Nat.le_succ _)
  · exact Nat.le_refl _

/-- No larger number is rounded below `2 ^ 53`. -/
theorem le_round {n : Nat} (h : 2 ^ 53 ≤ n) : 2 ^ 53 ≤ round n := by
  have hne : n ≠ 0 := by omega
  have hlog : 53 ≤ n.log2 := (Nat.le_log2 hne).mpr h
  have hsplit : 2 ^ 52 * unit n = 2 ^ n.log2 := by
    rw [unit, ← Nat.pow_add]
    congr 1
    omega
  have hdiv : 2 ^ 52 ≤ n / unit n := by
    rw [Nat.le_div_iff_mul_le (unit_pos n), hsplit]
    exact Nat.log2_self_le hne
  calc 2 ^ 53 ≤ 2 ^ n.log2 := Nat.pow_le_pow_right (by decide) hlog
    _ = 2 ^ 52 * unit n := hsplit.symm
    _ ≤ n / unit n * unit n := Nat.mul_le_mul_right _ hdiv
    _ ≤ round n := div_unit_le_round n

/-- A number below `2 ^ 53` is rounded to by itself only. -/
theorem eq_of_round_eq {x y : Nat} (hx : x < 2 ^ 53) (h : round y = x) : y = x := by
  by_cases hy : y < 2 ^ 53
  · rwa [round_eq_self hy] at h
  · have hle := le_round (Nat.le_of_not_lt hy)
    omega

/-- So it is written in full. -/
theorem shortest_eq_self {x : Nat} (hx : x < 2 ^ 53) : shortest x = x := by
  unfold shortest
  cases hfound : ((List.range 22).reverse.flatMap (neighbours x)).find? fun y => round y = x with
  | none => rfl
  | some y =>
      have hround := List.find?_some hfound
      exact eq_of_round_eq hx (of_decide_eq_true hround)

example : round 9007199254740993 = 9007199254740992 ∧ shortest (2 ^ 60) = 1152921504606847000 := by
  decide +kernel

end ExternalStorage.Library.Doubles
