import ExternalStorage.Library.Codes
import ExternalStorage.Library.Json

/-!
# Texts of JSON values

Values with arrays and objects inside each other, over any type of numbers, and what
`JSON.stringify` writes of them.  Numbers are written in characters of their own, so that the
text tells where each value ends and which one it is.
-/

namespace ExternalStorage.Library.JsonTrees

open Codes Json

/-- A JSON value; the members of an object come in the order of its properties. -/
inductive JsonTree (ν : Type) where
  | null
  | bool (b : Bool)
  | num (n : ν)
  | str (s : String)
  | arr (items : List (JsonTree ν))
  | obj (members : List (String × JsonTree ν))
  deriving Repr

variable {ν : Type}

theorem sizeOf_item_lt {items : List (JsonTree ν)} {v : JsonTree ν} (hv : v ∈ items) :
    sizeOf v < sizeOf (JsonTree.arr items) := by
  have h := List.sizeOf_lt_of_mem hv
  rw [JsonTree.arr.sizeOf_spec]
  omega

theorem sizeOf_value_lt {members : List (String × JsonTree ν)} {m : String × JsonTree ν}
    (hm : m ∈ members) : sizeOf m.2 < sizeOf (JsonTree.obj members) := by
  have h := List.sizeOf_lt_of_mem hm
  obtain ⟨k, v⟩ := m
  rw [Prod.mk.sizeOf_spec] at h
  rw [JsonTree.obj.sizeOf_spec]
  dsimp only
  omega

/-- Induction over the values inside a value. -/
@[elab_as_elim]
theorem JsonTree.nested {motive : JsonTree ν → Prop} (null : motive .null)
    (bool : ∀ b, motive (.bool b)) (num : ∀ n, motive (.num n)) (str : ∀ s, motive (.str s))
    (arr : ∀ items, (∀ v ∈ items, motive v) → motive (.arr items))
    (obj : ∀ members, (∀ m ∈ members, motive m.2) → motive (.obj members)) :
    ∀ v, motive v
  | .null => null
  | .bool b => bool b
  | .num n => num n
  | .str s => str s
  | .arr items => arr items fun v _ => JsonTree.nested null bool num str arr obj v
  | .obj members => obj members fun m _ => JsonTree.nested null bool num str arr obj m.2
termination_by v => sizeOf v
decreasing_by
  · exact sizeOf_item_lt (by assumption)
  · exact sizeOf_value_lt (by assumption)

/-- What `JSON.stringify` writes of a value, without white space. -/
def JsonTree.text (number : ν → List Char) : JsonTree ν → List Char
  | .null => ['n', 'u', 'l', 'l']
  | .bool true => ['t', 'r', 'u', 'e']
  | .bool false => ['f', 'a', 'l', 's', 'e']
  | .num n => number n
  | .str s => quote s
  | .arr items => '[' :: joined ',' (items.map fun v => v.text number) ++ [']']
  | .obj members =>
      '{' :: joined ',' (members.map fun m => quote m.1 ++ ':' :: m.2.text number) ++ ['}']
termination_by v => sizeOf v
decreasing_by
  · exact sizeOf_item_lt (by assumption)
  · exact sizeOf_value_lt (by assumption)

def numberChar (c : Char) : Bool := c.isDigit || ['-', '+', '.', 'e'].contains c

/-- Numbers are told apart by texts in their own characters. -/
structure NumberText (number : ν → List Char) : Prop where
  injective : Function.Injective number
  nonempty : ∀ n, number n ≠ []
  chars : ∀ n, ∀ c ∈ number n, numberChar c = true

theorem numberText_decimal : NumberText decimal where
  injective _ _ := decimal_inj
  nonempty n := by
    cases n with
    | ofNat n => exact Nat.toDigits_ne_nil
    | negSucc n => exact List.cons_ne_nil _ _
  chars n c hc := by
    have hdigit : ∀ m, ∀ c ∈ Nat.toDigits 10 m, numberChar c = true := by
      intro m c hc
      rw [numberChar, Nat.isDigit_of_mem_toDigits (by decide) (by decide) hc, Bool.true_or]
    cases n with
    | ofNat n => exact hdigit n c hc
    | negSucc n =>
        rcases List.mem_cons.mp hc with rfl | hc
        · rfl
        · exact hdigit (n + 1) c hc

/-! ## What the first character tells -/

/-- The kinds of values that start alike. -/
def kind : JsonTree ν → Nat
  | .null => 0
  | .bool true => 1
  | .bool false => 2
  | .num _ => 3
  | .str _ => 4
  | .arr _ => 5
  | .obj _ => 6

def kindOf (c : Char) : Nat :=
  if c = 'n' then 0 else if c = 't' then 1 else if c = 'f' then 2 else if c = '"' then 4
  else if c = '[' then 5 else if c = '{' then 6 else 3

theorem ne_of_numberChar {c d : Char} (hc : numberChar c = true) (hd : numberChar d = false) :
    c ≠ d := by
  rintro rfl
  rw [hc] at hd
  cases hd

theorem kindOf_number {c : Char} (hc : numberChar c = true) : kindOf c = 3 := by
  have hother : ∀ d : Char, numberChar d = false → c ≠ d := fun d => ne_of_numberChar hc
  unfold kindOf
  rw [if_neg (hother 'n' rfl), if_neg (hother 't' rfl), if_neg (hother 'f' rfl),
    if_neg (hother '"' rfl), if_neg (hother '[' rfl), if_neg (hother '{' rfl)]

/-- No value starts with what closes a list. -/
theorem text_head {number : ν → List Char} (hnumber : NumberText number) (v : JsonTree ν) :
    ∃ c r, v.text number = c :: r ∧ kindOf c = kind v ∧ c ≠ ']' := by
  match v with
  | .null => exact ⟨_, _, by rw [JsonTree.text], rfl, by decide⟩
  | .bool true => exact ⟨_, _, by rw [JsonTree.text], rfl, by decide⟩
  | .bool false => exact ⟨_, _, by rw [JsonTree.text], rfl, by decide⟩
  | .num n =>
      obtain ⟨c, r, htext⟩ := List.exists_cons_of_ne_nil (hnumber.nonempty n)
      have hc := hnumber.chars n c (htext ▸ List.mem_cons_self)
      exact ⟨c, r, by rw [JsonTree.text, htext], kindOf_number hc, ne_of_numberChar hc rfl⟩
  | .str s => exact ⟨_, _, by rw [JsonTree.text, quote, List.cons_append], rfl, by decide⟩
  | .arr items => exact ⟨_, _, by rw [JsonTree.text, List.cons_append], rfl, by decide⟩
  | .obj members => exact ⟨_, _, by rw [JsonTree.text, List.cons_append], rfl, by decide⟩

inductive SameKind : JsonTree ν → JsonTree ν → Prop
  | null : SameKind .null .null
  | bool (b : Bool) : SameKind (.bool b) (.bool b)
  | num (n n' : ν) : SameKind (.num n) (.num n')
  | str (s s' : String) : SameKind (.str s) (.str s')
  | arr (items items' : List (JsonTree ν)) : SameKind (.arr items) (.arr items')
  | obj (members members' : List (String × JsonTree ν)) : SameKind (.obj members) (.obj members')

theorem sameKind_of_kind {v w : JsonTree ν} (h : kind v = kind w) : SameKind v w := by
  match v, w with
  | .null, .null => exact .null
  | .bool true, .bool true => exact .bool true
  | .bool false, .bool false => exact .bool false
  | .num n, .num n' => exact .num n n'
  | .str s, .str s' => exact .str s s'
  | .arr items, .arr items' => exact .arr items items'
  | .obj members, .obj members' => exact .obj members members'

theorem sameKind_of_text {number : ν → List Char} (hnumber : NumberText number) {v w : JsonTree ν}
    {s t : List Char} (h : v.text number ++ s = w.text number ++ t) : SameKind v w := by
  obtain ⟨c, r, hv, hc, -⟩ := text_head hnumber v
  obtain ⟨d, r', hw, hd, -⟩ := text_head hnumber w
  rw [hv, hw, List.cons_append, List.cons_append] at h
  exact sameKind_of_kind (hc.symm.trans ((congrArg kindOf (List.cons.inj h).1).trans hd))

/-! ## The text determines the value -/

/-- What can follow a value. -/
def Ends (s : List Char) : Prop := ∀ c ∈ s.head?, c = ',' ∨ c = ']' ∨ c = '}'

theorem ends_nil : Ends [] := by simp [Ends]

theorem ends_comma (s : List Char) : Ends (',' :: s) := by simp [Ends]

theorem ends_bracket (s : List Char) : Ends (']' :: s) := by simp [Ends]

theorem ends_brace (s : List Char) : Ends ('}' :: s) := by simp [Ends]

theorem reads_quote (s : String) : Reads anything (fun _ => True) quote s := by
  intro s' r r' _ _ _ h
  have hread := congrArg readString h
  rw [readString_quote, readString_quote] at hread
  exact Prod.mk.inj (Option.some.inj hread)

theorem reads_number {number : ν → List Char} (hnumber : NumberText number) (n : ν) :
    Reads Ends (fun _ => True) number n := by
  have htake : ∀ n s, Ends s → (number n ++ s).takeWhile numberChar = number n := by
    intro n s hs
    rw [List.takeWhile_append_of_pos (hnumber.chars n)]
    cases s with
    | nil => rw [List.takeWhile_nil, List.append_nil]
    | cons c s =>
        have hc : numberChar c = false := by
          rcases hs c rfl with rfl | rfl | rfl <;> rfl
        rw [List.takeWhile_cons_of_neg (by simp [hc]), List.append_nil]
  intro m s t _ hs ht h
  have hsame := congrArg (List.takeWhile numberChar) h
  rw [htake n s hs, htake m t ht] at hsame
  rw [hsame] at h
  exact ⟨hnumber.injective hsame, List.append_cancel_left h⟩

theorem reads_member {number : ν → List Char} {m : String × JsonTree ν}
    (hvalue : Reads Ends (fun _ => True) (JsonTree.text number) m.2) :
    Reads Ends (fun _ => True)
      (fun m : String × JsonTree ν => quote m.1 ++ ':' :: m.2.text number) m := by
  intro m' s t _ hs ht h
  simp only [List.append_assoc] at h
  obtain ⟨hkey, hrest⟩ := reads_quote m.1 m'.1 _ _ trivial trivial trivial h
  obtain ⟨hsame, hst⟩ := hvalue m'.2 s t trivial hs ht (List.cons.inj hrest).2
  exact ⟨Prod.ext hkey hsame, hst⟩

theorem reads_text {number : ν → List Char} (hnumber : NumberText number) (v : JsonTree ν) :
    Reads Ends (fun _ => True) (JsonTree.text number) v := by
  induction v using JsonTree.nested with
  | null =>
      intro w s t _ _ _ h
      cases sameKind_of_text hnumber h with
      | null => exact ⟨rfl, List.append_cancel_left h⟩
  | bool b =>
      intro w s t _ _ _ h
      cases sameKind_of_text hnumber h with
      | bool => exact ⟨rfl, List.append_cancel_left h⟩
  | num n =>
      intro w s t _ hs ht h
      cases sameKind_of_text hnumber h with
      | num _ n' =>
          rw [JsonTree.text, JsonTree.text] at h
          obtain ⟨rfl, hst⟩ := reads_number hnumber n n' s t trivial hs ht h
          exact ⟨rfl, hst⟩
  | str text =>
      intro w s t _ _ _ h
      cases sameKind_of_text hnumber h with
      | str _ text' =>
          rw [JsonTree.text, JsonTree.text] at h
          obtain ⟨rfl, hst⟩ := reads_quote text text' s t trivial trivial trivial h
          exact ⟨rfl, hst⟩
  | arr items ih =>
      intro w s t _ _ _ h
      cases sameKind_of_text hnumber h with
      | arr _ items' =>
          rw [JsonTree.text, JsonTree.text] at h
          simp only [List.cons_append, List.append_assoc, List.cons.injEq, true_and,
            List.nil_append] at h
          have hopen : ∀ v : JsonTree ν, True → ∃ c r, v.text number = c :: r ∧ c ≠ ']' := by
            intro v _
            obtain ⟨c, r, htext, -, hc⟩ := text_head hnumber v
            exact ⟨c, r, htext, hc⟩
          obtain ⟨rfl, hst⟩ := joined_inj (by decide) ends_comma ends_bracket hopen
            (fun v hv => ⟨trivial, ih v hv⟩) (fun _ _ => trivial) h
          exact ⟨rfl, hst⟩
  | obj members ih =>
      intro w s t _ _ _ h
      cases sameKind_of_text hnumber h with
      | obj _ members' =>
          rw [JsonTree.text, JsonTree.text] at h
          simp only [List.cons_append, List.append_assoc, List.cons.injEq, true_and,
            List.nil_append] at h
          obtain ⟨rfl, hst⟩ := joined_inj (by decide) ends_comma ends_brace
            (fun m _ => ⟨'"', _, rfl, by decide⟩)
            (fun m hm => ⟨trivial, reads_member (ih m hm)⟩) (fun _ _ => trivial) h
          exact ⟨rfl, hst⟩

/-- Different values have different texts. -/
theorem text_injective {number : ν → List Char} (hnumber : NumberText number) :
    Function.Injective (JsonTree.text number) :=
  fun v _ h => (reads_text hnumber v).inj trivial ends_nil h

end ExternalStorage.Library.JsonTrees
