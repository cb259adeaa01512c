import Mathlib.Data.List.Basic

/-!
# Codes that are read off the front of a text

A value is written as a list of letters, and more is written behind it.  `Reads` says that the
reader knows where the value ends and which one it is.  Values of fixed width, values behind
their length, streams of values and separated values can then be told apart.
-/

namespace ExternalStorage.Library.Codes

variable {α β : Type}

/-- Where `a` is written with something behind it that `stop` admits, no other valid value is. -/
def Reads (stop : List β → Prop) (valid : α → Prop) (code : α → List β) (a : α) : Prop :=
  ∀ b s t, valid b → stop s → stop t → code a ++ s = code b ++ t → a = b ∧ s = t

def anything (_ : List β) : Prop := True

section

variable {stop stop' : List β → Prop} {valid : α → Prop} {code : α → List β}

theorem Reads.inj {a b : α} (h : Reads stop valid code a) (hb : valid b) (hnil : stop [])
    (heq : code a = code b) : a = b :=
  (h b [] [] hb hnil hnil (by rw [heq])).1

theorem reads_of_length {n : Nat} (hlength : ∀ a, valid a → (code a).length = n)
    (hinj : ∀ a b, valid a → valid b → code a = code b → a = b) {a : α} (ha : valid a) :
    Reads stop valid code a := by
  intro b s t hb _ _ heq
  obtain ⟨hcode, hrest⟩ := List.append_inj heq ((hlength a ha).trans (hlength b hb).symm)
  exact ⟨hinj a b ha hb hcode, hrest⟩

theorem reads_lengthPrefixed {width : Nat → List β} {bound : Nat}
    (hwidth : ∀ n < bound, Reads anything (· < bound) width n) {xs : List β}
    (hxs : xs.length < bound) :
    Reads anything (fun xs => xs.length < bound) (fun xs => width xs.length ++ xs) xs := by
  intro ys s t hys _ _ heq
  simp only [List.append_assoc] at heq
  obtain ⟨hlength, hrest⟩ := hwidth xs.length hxs ys.length _ _ hys trivial trivial heq
  exact List.append_inj hrest hlength

/-- A stream of codes, none of which is empty. -/
theorem flatMap_inj (hnil : ∀ a, valid a → code a ≠ []) {as bs : List α}
    (has : ∀ a ∈ as, valid a ∧ Reads anything valid code a) (hbs : ∀ b ∈ bs, valid b)
    (heq : as.flatMap code = bs.flatMap code) : as = bs := by
  induction as generalizing bs with
  | nil =>
      cases bs with
      | nil => rfl
      | cons b bs =>
          rw [List.flatMap_nil, List.flatMap_cons] at heq
          have hb := List.append_eq_nil_iff.mp heq.symm
          exact absurd hb.1 (hnil b (hbs b List.mem_cons_self))
  | cons a as ih =>
      obtain ⟨ha, hreads⟩ := has a List.mem_cons_self
      cases bs with
      | nil =>
          rw [List.flatMap_nil, List.flatMap_cons] at heq
          exact absurd (List.append_eq_nil_iff.mp heq).1 (hnil a ha)
      | cons b bs =>
          rw [List.flatMap_cons, List.flatMap_cons] at heq
          obtain ⟨rfl, hrest⟩ :=
            hreads b _ _ (hbs b List.mem_cons_self) trivial trivial heq
          rw [ih (fun a ha => has a (List.mem_cons_of_mem _ ha))
            (fun b hb => hbs b (List.mem_cons_of_mem _ hb)) hrest]

end

/-! ## Separated values -/

def joined (sep : β) : List (List β) → List β
  | [] => []
  | text :: texts => text ++ texts.flatMap (sep :: ·)

section

variable {stop : List β → Prop} {valid : α → Prop} {code : α → List β} {sep close : β}

/-- What follows the first value, up to the letter that closes the list. -/
theorem repeated_inj (hne : sep ≠ close) (hsep : ∀ s, stop (sep :: s))
    (hclose : ∀ s, stop (close :: s)) {as bs : List α} {s t : List β}
    (has : ∀ a ∈ as, Reads stop valid code a) (hbs : ∀ b ∈ bs, valid b)
    (heq : (as.map code).flatMap (sep :: ·) ++ close :: s =
      (bs.map code).flatMap (sep :: ·) ++ close :: t) : as = bs ∧ s = t := by
  have hstop : ∀ (cs : List α) s, stop ((cs.map code).flatMap (sep :: ·) ++ close :: s) := by
    intro cs s
    cases cs with
    | nil => exact hclose s
    | cons c cs => exact hsep _
  induction as generalizing bs with
  | nil =>
      cases bs with
      | nil => exact ⟨rfl, (List.cons.inj heq).2⟩
      | cons b bs => exact absurd (List.cons.inj heq).1.symm hne
  | cons a as ih =>
      cases bs with
      | nil => exact absurd (List.cons.inj heq).1 hne
      | cons b bs =>
          simp only [List.map_cons, List.flatMap_cons, List.cons_append, List.append_assoc,
            List.cons.injEq, true_and] at heq
          obtain ⟨rfl, hrest⟩ := has a List.mem_cons_self b _ _ (hbs b List.mem_cons_self)
            (hstop as s) (hstop bs t) heq
          obtain ⟨rfl, hst⟩ := ih (fun a ha => has a (List.mem_cons_of_mem _ ha))
            (fun b hb => hbs b (List.mem_cons_of_mem _ hb)) hrest
          exact ⟨rfl, hst⟩

/-- Separated values in brackets: `hopen` tells the first of them from the closing one. -/
theorem joined_inj (hne : sep ≠ close) (hsep : ∀ s, stop (sep :: s))
    (hclose : ∀ s, stop (close :: s))
    (hopen : ∀ a, valid a → ∃ x xs, code a = x :: xs ∧ x ≠ close)
    {as bs : List α} {s t : List β} (has : ∀ a ∈ as, valid a ∧ Reads stop valid code a)
    (hbs : ∀ b ∈ bs, valid b)
    (heq : joined sep (as.map code) ++ close :: s = joined sep (bs.map code) ++ close :: t) :
    as = bs ∧ s = t := by
  have hstop : ∀ (cs : List α) s, stop ((cs.map code).flatMap (sep :: ·) ++ close :: s) := by
    intro cs s
    cases cs with
    | nil => exact hclose s
    | cons c cs => exact hsep _
  cases as with
  | nil =>
      cases bs with
      | nil => exact ⟨rfl, (List.cons.inj heq).2⟩
      | cons b bs =>
          obtain ⟨x, xs, hcode, hx⟩ := hopen b (hbs b List.mem_cons_self)
          simp only [List.map_cons, joined, hcode, List.cons_append] at heq
          exact absurd (List.cons.inj heq).1.symm hx
  | cons a as =>
      obtain ⟨ha, hreads⟩ := has a List.mem_cons_self
      cases bs with
      | nil =>
          obtain ⟨x, xs, hcode, hx⟩ := hopen a ha
          simp only [List.map_cons, joined, hcode, List.cons_append] at heq
          exact absurd (List.cons.inj heq).1 hx
      | cons b bs =>
          simp only [List.map_cons, joined, List.append_assoc] at heq
          obtain ⟨rfl, hrest⟩ :=
            hreads b _ _ (hbs b List.mem_cons_self) (hstop as s) (hstop bs t) heq
          obtain ⟨rfl, hst⟩ := repeated_inj hne hsep hclose
            (fun a ha => (has a (List.mem_cons_of_mem _ ha)).2)
            (fun b hb => hbs b (List.mem_cons_of_mem _ hb)) hrest
          exact ⟨rfl, hst⟩

end

end ExternalStorage.Library.Codes
