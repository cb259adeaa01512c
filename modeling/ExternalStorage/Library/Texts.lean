import Mathlib.Data.List.Basic

/-!
# Separators and decimal digits

Texts are lists of characters.  A text is cut at a separator, and a number is read from its
digits; both ways back are given where they exist.
-/

namespace ExternalStorage.Library.Texts

/-! ## Separators -/

theorem notMem_of_mem_splitOn {c : Char} {text part : List Char} (h : part ∈ text.splitOn c) :
    c ∉ part := by
  induction text generalizing part with
  | nil =>
      rw [List.splitOn_nil, List.mem_singleton] at h
      rw [h]
      exact List.not_mem_nil
  | cons x xs ih =>
      rw [List.splitOn_cons_eq_if_modifyHead] at h
      split at h
      · rcases List.mem_cons.mp h with rfl | hrest
        · exact List.not_mem_nil
        · exact ih hrest
      · rename_i hx
        cases hsplit : xs.splitOn c with
        | nil => exact absurd hsplit (List.splitOn_ne_nil c xs)
        | cons first rest =>
            rw [hsplit, List.modifyHead_cons] at h
            rcases List.mem_cons.mp h with rfl | hrest
            · rw [List.mem_cons, not_or]
              refine ⟨?_, ih ?_⟩
              · rintro rfl
                exact hx (beq_self_eq_true _)
              · rw [hsplit]
                exact List.mem_cons_self
            · refine ih ?_
              rw [hsplit]
              exact List.mem_cons_of_mem _ hrest

theorem mem_of_mem_splitOn {c x : Char} {text part : List Char} (h : part ∈ text.splitOn c)
    (hx : x ∈ part) : x ∈ text := by
  induction text generalizing part with
  | nil =>
      rw [List.splitOn_nil, List.mem_singleton] at h
      rw [h] at hx
      cases hx
  | cons y ys ih =>
      rw [List.splitOn_cons_eq_if_modifyHead] at h
      split at h
      · rcases List.mem_cons.mp h with rfl | hrest
        · cases hx
        · exact List.mem_cons_of_mem _ (ih hrest hx)
      · cases hsplit : ys.splitOn c with
        | nil => exact absurd hsplit (List.splitOn_ne_nil c ys)
        | cons first rest =>
            rw [hsplit, List.modifyHead_cons] at h
            rcases List.mem_cons.mp h with rfl | hrest
            · rcases List.mem_cons.mp hx with rfl | htail
              · exact List.mem_cons_self
              · refine List.mem_cons_of_mem _ (ih ?_ htail)
                rw [hsplit]
                exact List.mem_cons_self
            · refine List.mem_cons_of_mem _ (ih ?_ hx)
              rw [hsplit]
              exact List.mem_cons_of_mem _ hrest

/-- Two texts split at their first separator. -/
theorem split_first {c : Char} {d e p q : List Char} (hd : c ∉ d) (he : c ∉ e)
    (h : d ++ c :: p = e ++ c :: q) : d = e ∧ p = q := by
  induction d generalizing e with
  | nil =>
      cases e with
      | nil => exact ⟨rfl, (List.cons.inj h).2⟩
      | cons a e =>
          have hc : c = a := (List.cons.inj h).1
          exact absurd (hc ▸ List.mem_cons_self) he
  | cons a d ih =>
      cases e with
      | nil =>
          have hc : a = c := (List.cons.inj h).1
          exact absurd (hc ▸ List.mem_cons_self) hd
      | cons b e =>
          simp only [List.cons_append, List.cons.injEq] at h
          simp only [List.mem_cons, not_or] at hd he
          obtain ⟨rfl, rfl⟩ := ih hd.2 he.2 h.2
          exact ⟨by rw [h.1], rfl⟩

/-- Two texts split at their last separator. -/
theorem split_last {c : Char} {p q d e : List Char} (hd : c ∉ d) (he : c ∉ e)
    (h : p ++ c :: d = q ++ c :: e) : p = q ∧ d = e := by
  have hrev : d.reverse ++ c :: p.reverse = e.reverse ++ c :: q.reverse := by
    simpa using congrArg List.reverse h
  have hsplit := split_first (by simpa using hd) (by simpa using he) hrev
  exact ⟨List.reverse_injective hsplit.2, List.reverse_injective hsplit.1⟩

/-- The parts of a text are the lists without the separator that give it when joined. -/
theorem splitOn_eq_iff {c : Char} {text : List Char} {parts : List (List Char)}
    (hparts : parts ≠ []) :
    text.splitOn c = parts ↔ text = [c].intercalate parts ∧ ∀ part ∈ parts, c ∉ part := by
  constructor
  · rintro rfl
    exact ⟨(List.intercalate_splitOn c).symm, fun _ => notMem_of_mem_splitOn⟩
  · rintro ⟨rfl, hsep⟩
    exact List.splitOn_intercalate c hsep hparts

/-! ## Decimal digits -/

def digitValue (c : Char) : Nat := c.toNat - '0'.toNat

theorem digitValue_lt {c : Char} (hc : c.isDigit = true) : digitValue c < 10 := by
  obtain ⟨hlow, hhigh⟩ := Char.isDigit_iff_toNat.mp hc
  simp only [Char.reduceToNat] at hlow hhigh
  simp only [digitValue, Char.reduceToNat]
  omega

theorem digitChar_digitValue {c : Char} (hc : c.isDigit = true) :
    Nat.digitChar (digitValue c) = c := by
  have hvalue : 48 + digitValue c = c.toNat := by
    obtain ⟨hlow, -⟩ := Char.isDigit_iff_toNat.mp hc
    simp only [Char.reduceToNat] at hlow
    simp only [digitValue, Char.reduceToNat]
    omega
  apply Char.toNat_inj.mp
  rw [Nat.toNat_digitChar_of_lt_ten (digitValue_lt hc), hvalue]

theorem digitValue_pos {c : Char} (hc : c.isDigit = true) (hzero : c ≠ '0') :
    0 < digitValue c := by
  by_contra hnot
  have hvalue : digitValue c = 0 := by omega
  have hchar := digitChar_digitValue hc
  rw [hvalue] at hchar
  exact hzero hchar.symm

/-- Digits behind a number that is not zero. -/
theorem toDigits_ofDigitChars_append {acc : Nat} (cs : List Char) (hacc : 0 < acc)
    (hdigits : ∀ c ∈ cs, c.isDigit = true) :
    Nat.toDigits 10 (Nat.ofDigitChars 10 cs acc) = Nat.toDigits 10 acc ++ cs := by
  induction cs generalizing acc with
  | nil => rw [Nat.ofDigitChars_nil, List.append_nil]
  | cons c cs ih =>
      obtain ⟨hc, hrest⟩ := List.forall_mem_cons.mp hdigits
      have hlast : Nat.toDigits 10 (10 * acc + digitValue c) = Nat.toDigits 10 acc ++ [c] := by
        rw [← Nat.toDigits_append_toDigits (by decide) hacc (digitValue_lt hc),
          Nat.toDigits_of_lt_base (digitValue_lt hc), digitChar_digitValue hc]
      calc
        Nat.toDigits 10 (Nat.ofDigitChars 10 (c :: cs) acc)
            = Nat.toDigits 10 (Nat.ofDigitChars 10 cs (10 * acc + digitValue c)) := by
          rw [Nat.ofDigitChars_cons, digitValue]
        _ = Nat.toDigits 10 (10 * acc + digitValue c) ++ cs := ih (by omega) hrest
        _ = Nat.toDigits 10 acc ++ c :: cs := by
          rw [hlast, List.append_assoc, List.singleton_append]

/-- A text of digits is zeros followed by the digits of its number, if that is not zero. -/
theorem exists_zeros_toDigits {cs : List Char} (hdigits : ∀ c ∈ cs, c.isDigit = true)
    (hpos : 0 < Nat.ofDigitChars 10 cs 0) :
    ∃ zeros, cs = List.replicate zeros '0' ++ Nat.toDigits 10 (Nat.ofDigitChars 10 cs 0) := by
  induction cs with
  | nil => exact absurd hpos (Nat.lt_irrefl 0)
  | cons c cs ih =>
      obtain ⟨hc, hrest⟩ := List.forall_mem_cons.mp hdigits
      have hcons : Nat.ofDigitChars 10 (c :: cs) 0 = Nat.ofDigitChars 10 cs (digitValue c) := by
        rw [Nat.ofDigitChars_cons, Nat.mul_zero, Nat.zero_add, digitValue]
      rw [hcons] at hpos ⊢
      by_cases hzero : c = '0'
      · subst hzero
        obtain ⟨zeros, hzeros⟩ := ih hrest hpos
        exact ⟨zeros + 1, congrArg (List.cons '0') hzeros⟩
      · refine ⟨0, ?_⟩
        rw [toDigits_ofDigitChars_append cs (digitValue_pos hc hzero) hrest,
          Nat.toDigits_of_lt_base (digitValue_lt hc), digitChar_digitValue hc]
        rfl

/-- The digits of a positive number do not start with a zero. -/
theorem head_toDigits {n : Nat} (hn : 0 < n) :
    ∃ c cs, Nat.toDigits 10 n = c :: cs ∧ c.isDigit = true ∧ c ≠ '0' := by
  have hdigits : ∀ c ∈ Nat.toDigits 10 n, c.isDigit = true :=
    fun c hc => Nat.isDigit_of_mem_toDigits (by decide) (by decide) hc
  cases htext : Nat.toDigits 10 n with
  | nil => exact absurd htext Nat.toDigits_ne_nil
  | cons c cs =>
      rw [htext] at hdigits
      obtain ⟨hc, hrest⟩ := List.forall_mem_cons.mp hdigits
      refine ⟨c, cs, rfl, hc, ?_⟩
      rintro rfl
      -- Behind the zero the same number would have to be written in fewer digits.
      have hvalue : Nat.ofDigitChars 10 cs 0 = n := by
        rw [← Nat.ofDigitChars_ten_toDigits (n := n), htext]
        rfl
      obtain ⟨zeros, hzeros⟩ := exists_zeros_toDigits hrest (hvalue.symm ▸ hn)
      have hlength := congrArg List.length hzeros
      rw [hvalue, htext, List.length_append, List.length_cons] at hlength
      omega

end ExternalStorage.Library.Texts
