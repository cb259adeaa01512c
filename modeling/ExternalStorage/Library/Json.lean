import Mathlib.Data.List.Basic

/-!
# Texts of flat JSON objects

What `JSON.stringify` writes of an object whose members are scalars, and a reader for such
texts.  What was written is read back, so the text of an object determines its members.
-/

namespace ExternalStorage.Library.Json

inductive Value where
  | null
  | bool (b : Bool)
  | num (n : Int)
  | str (s : String)
  deriving DecidableEq, Repr

/-- A digit of a `\u` escape. -/
def hexDigit (n : Nat) : Char :=
  if n < 10 then Char.ofNat (n + 48) else Char.ofNat (n + 87)

def hexValue (c : Char) : Nat :=
  if c.toNat < 58 then c.toNat - 48 else c.toNat - 87

/-- A character of a string: control characters without a short escape go by number. -/
def escape (c : Char) : List Char :=
  if c = '"' then ['\\', '"']
  else if c = '\\' then ['\\', '\\']
  else if c = Char.ofNat 8 then ['\\', 'b']
  else if c = Char.ofNat 9 then ['\\', 't']
  else if c = Char.ofNat 10 then ['\\', 'n']
  else if c = Char.ofNat 12 then ['\\', 'f']
  else if c = Char.ofNat 13 then ['\\', 'r']
  else if c.toNat < 32 then
    ['\\', 'u', '0', '0', hexDigit (c.toNat / 16), hexDigit (c.toNat % 16)]
  else [c]

def quote (s : String) : List Char := '"' :: s.toList.flatMap escape ++ ['"']

def decimal : Int → List Char
  | .ofNat n => Nat.toDigits 10 n
  | .negSucc n => '-' :: Nat.toDigits 10 (n + 1)

def Value.text : Value → List Char
  | .null => ['n', 'u', 'l', 'l']
  | .bool true => ['t', 'r', 'u', 'e']
  | .bool false => ['f', 'a', 'l', 's', 'e']
  | .num n => decimal n
  | .str s => quote s

def member (m : String × Value) : List Char := quote m.1 ++ ':' :: m.2.text

def members : List (String × Value) → List Char
  | [] => []
  | [m] => member m
  | m :: n :: ms => member m ++ ',' :: members (n :: ms)

def object (ms : List (String × Value)) : List Char := '{' :: members ms ++ ['}']

/-! ## Strings -/

/-- The character that an escape stands for, and what is behind it. -/
def unescape : List Char → Option (Char × List Char)
  | '\\' :: 'u' :: _ :: _ :: a :: b :: r => some (Char.ofNat (16 * hexValue a + hexValue b), r)
  | '\\' :: 'b' :: r => some (Char.ofNat 8, r)
  | '\\' :: 't' :: r => some (Char.ofNat 9, r)
  | '\\' :: 'n' :: r => some (Char.ofNat 10, r)
  | '\\' :: 'f' :: r => some (Char.ofNat 12, r)
  | '\\' :: 'r' :: r => some (Char.ofNat 13, r)
  | '\\' :: c :: r => some (c, r)
  | c :: r => some (c, r)
  | [] => none

theorem hexValue_hexDigit {n : Nat} (hn : n < 16) : hexValue (hexDigit n) = n := by
  revert n
  decide

theorem unescape_plain {c : Char} (hc : c ≠ '\\') (r : List Char) :
    unescape (c :: r) = some (c, r) := by
  unfold unescape
  split <;> simp_all

theorem unescape_escape (c : Char) (r : List Char) : unescape (escape c ++ r) = some (c, r) := by
  unfold escape
  split_ifs with h₁ h₂ h₃ h₄ h₅ h₆ h₇ h₈
  · rw [h₁]
    rfl
  · rw [h₂]
    rfl
  · rw [h₃]
    rfl
  · rw [h₄]
    rfl
  · rw [h₅]
    rfl
  · rw [h₆]
    rfl
  · rw [h₇]
    rfl
  · show some (Char.ofNat (16 * hexValue (hexDigit (c.toNat / 16)) +
      hexValue (hexDigit (c.toNat % 16))), r) = some (c, r)
    rw [hexValue_hexDigit (by omega), hexValue_hexDigit (by omega), Nat.div_add_mod,
      Char.ofNat_toNat]
  · exact unescape_plain h₂ r

/-- The characters of a string up to the quote that ends it, and what is behind. -/
def readBody : Nat → List Char → Option (List Char × List Char)
  | 0, _ => none
  | fuel + 1, t =>
      if t.head? = some '"' then some ([], t.tail)
      else do
        let (c, r) ← unescape t
        let (s, r) ← readBody fuel r
        some (c :: s, r)

def readString : List Char → Option (String × List Char)
  | '"' :: r => (readBody (r.length + 1) r).map fun p => (String.ofList p.1, p.2)
  | _ => none

/-- No escape starts with the quote that ends a string. -/
theorem escape_head (c : Char) : ∃ a t, escape c = a :: t ∧ a ≠ '"' := by
  unfold escape
  split_ifs with h₁
  case neg => exact ⟨c, [], rfl, h₁⟩
  all_goals exact ⟨'\\', _, rfl, by decide⟩

theorem length_escape_pos (c : Char) : 0 < (escape c).length := by
  obtain ⟨a, t, h, -⟩ := escape_head c
  rw [h]
  exact Nat.succ_pos _

theorem readBody_escaped {fuel : Nat} (s r : List Char)
    (hfuel : (s.flatMap escape).length < fuel) :
    readBody fuel (s.flatMap escape ++ '"' :: r) = some (s, r) := by
  induction s generalizing fuel with
  | nil =>
      obtain ⟨fuel, rfl⟩ := Nat.exists_eq_succ_of_ne_zero (Nat.ne_zero_of_lt hfuel)
      rfl
  | cons c s ih =>
      obtain ⟨fuel, rfl⟩ := Nat.exists_eq_succ_of_ne_zero (Nat.ne_zero_of_lt hfuel)
      have hhead : ((c :: s).flatMap escape ++ '"' :: r).head? ≠ some '"' := by
        obtain ⟨a, t, hescape, ha⟩ := escape_head c
        rw [List.flatMap_cons, hescape, List.cons_append, List.cons_append, List.head?_cons]
        exact fun h => ha (Option.some.inj h)
      have hlength : (s.flatMap escape).length < fuel := by
        rw [List.flatMap_cons, List.length_append] at hfuel
        have hpos := length_escape_pos c
        omega
      rw [readBody, if_neg hhead, List.flatMap_cons, List.append_assoc, unescape_escape]
      simp only [Option.bind_eq_bind, Option.bind_some, ih hlength]

theorem readString_quote (s : String) (r : List Char) :
    readString (quote s ++ r) = some (s, r) := by
  have hlength : (s.toList.flatMap escape).length <
      (s.toList.flatMap escape ++ '"' :: r).length + 1 := by
    rw [List.length_append]
    omega
  have htext : quote s ++ r = '"' :: (s.toList.flatMap escape ++ '"' :: r) := by
    rw [quote, List.cons_append, List.cons_append, List.append_assoc]
    rfl
  rw [htext, readString, readBody_escaped s.toList r hlength, Option.map_some,
    String.ofList_toList]

/-! ## Numbers -/

/-- What follows does not go on with digits. -/
def Delimited (r : List Char) : Prop := ∀ c ∈ r.head?, c.isDigit = false

def readDigits (t : List Char) : Option (Nat × List Char) :=
  if t.takeWhile Char.isDigit = [] then none
  else some (Nat.ofDigitChars 10 (t.takeWhile Char.isDigit) 0, t.dropWhile Char.isDigit)

theorem readDigits_toDigits (n : Nat) {r : List Char} (hr : Delimited r) :
    readDigits (Nat.toDigits 10 n ++ r) = some (n, r) := by
  have hdigits : ∀ c ∈ Nat.toDigits 10 n, c.isDigit = true := fun c hc =>
    Nat.isDigit_of_mem_toDigits (by decide) (by decide) hc
  have hrest : r.takeWhile Char.isDigit = [] ∧ r.dropWhile Char.isDigit = r := by
    cases r with
    | nil => exact ⟨rfl, rfl⟩
    | cons c r => simp [hr c rfl]
  have htake : (Nat.toDigits 10 n ++ r).takeWhile Char.isDigit = Nat.toDigits 10 n := by
    rw [List.takeWhile_append_of_pos hdigits, hrest.1, List.append_nil]
  have hdrop : (Nat.toDigits 10 n ++ r).dropWhile Char.isDigit = r := by
    rw [List.dropWhile_append_of_pos hdigits, hrest.2]
  rw [readDigits, htake, hdrop, if_neg Nat.toDigits_ne_nil, Nat.ofDigitChars_ten_toDigits]

theorem digits_head (n : Nat) : ∃ a t, Nat.toDigits 10 n = a :: t ∧ a.isDigit = true := by
  obtain ⟨a, t, h⟩ := List.exists_cons_of_ne_nil (Nat.toDigits_ne_nil (n := n) (b := 10))
  refine ⟨a, t, h, ?_⟩
  apply Nat.isDigit_of_mem_toDigits (b := 10) (n := n) (by decide) (by decide)
  rw [h]
  exact List.mem_cons_self

/-! ## Values and members -/

/-- The kinds of a value are told apart by the first character of the text. -/
def readValue : List Char → Option (Value × List Char)
  | [] => none
  | c :: r =>
      if c = 'n' then (List.isPrefixOf? ['u', 'l', 'l'] r).map fun r => (.null, r)
      else if c = 't' then (List.isPrefixOf? ['r', 'u', 'e'] r).map fun r => (.bool true, r)
      else if c = 'f' then
        (List.isPrefixOf? ['a', 'l', 's', 'e'] r).map fun r => (.bool false, r)
      else if c = '"' then (readString (c :: r)).map fun p => (.str p.1, p.2)
      else if c = '-' then (readDigits r).map fun p => (.num (-(p.1 : Int)), p.2)
      else (readDigits (c :: r)).map fun p => (.num p.1, p.2)

theorem readValue_digits (n : Nat) {r : List Char} (hr : Delimited r) :
    readValue (Nat.toDigits 10 n ++ r) = some (.num n, r) := by
  have hread := readDigits_toDigits n hr
  obtain ⟨a, t, htext, ha⟩ := digits_head n
  have hother : ∀ c : Char, c.isDigit = false → a ≠ c := by
    rintro c hc rfl
    rw [ha] at hc
    cases hc
  rw [htext, List.cons_append] at hread ⊢
  rw [readValue, if_neg (hother 'n' rfl), if_neg (hother 't' rfl), if_neg (hother 'f' rfl),
    if_neg (hother '"' rfl), if_neg (hother '-' rfl), hread, Option.map_some]

theorem readValue_text (v : Value) {r : List Char} (hr : Delimited r) :
    readValue (v.text ++ r) = some (v, r) := by
  match v with
  | .null => rfl
  | .bool true => rfl
  | .bool false => rfl
  | .str s =>
      show (readString (quote s ++ r)).map _ = _
      rw [readString_quote, Option.map_some]
  | .num (.ofNat n) => exact readValue_digits n hr
  | .num (.negSucc n) =>
      show (readDigits (Nat.toDigits 10 (n + 1) ++ r)).map _ = _
      rw [readDigits_toDigits (n + 1) hr, Option.map_some]
      rfl

theorem decimal_inj {n n' : Int} (h : decimal n = decimal n') : n = n' := by
  have hnil : Delimited [] := by simp [Delimited]
  have hread := congrArg (fun t => readValue (t ++ [])) h
  simp only [show ∀ m : Int, readValue (decimal m ++ []) = some (.num m, []) from
    fun m => readValue_text (.num m) hnil] at hread
  simpa using hread

def readMember (t : List Char) : Option ((String × Value) × List Char) := do
  let (key, r) ← readString t
  if r.head? = some ':' then
    let (v, r) ← readValue r.tail
    some ((key, v), r)
  else
    none

theorem readMember_member (m : String × Value) {r : List Char} (hr : Delimited r) :
    readMember (member m ++ r) = some (m, r) := by
  rw [readMember, member, List.append_assoc, readString_quote]
  simp only [Option.bind_eq_bind, Option.bind_some, List.cons_append, List.head?_cons, if_pos,
    List.tail_cons, readValue_text m.2 hr]

/-- The members up to the brace that ends the text. -/
def readMembers : Nat → List Char → Option (List (String × Value))
  | 0, _ => none
  | fuel + 1, t => do
      let (m, r) ← readMember t
      if r = ['}'] then some [m]
      else if r.head? = some ',' then (readMembers fuel r.tail).map (m :: ·)
      else none

/-- An object, if the text is one of `object`. -/
def readObject (t : List Char) : Option (List (String × Value)) :=
  if t = ['{', '}'] then some []
  else if t.head? = some '{' then readMembers t.length t.tail
  else none

theorem length_members_pos (m : String × Value) (ms : List (String × Value)) :
    0 < (members (m :: ms)).length := by
  have hmember : 0 < (member m).length := by
    rw [member, quote, List.cons_append, List.cons_append, List.length_cons]
    exact Nat.succ_pos _
  cases ms with
  | nil => exact hmember
  | cons n ms =>
      rw [members, List.length_append]
      omega

theorem readMembers_members {fuel : Nat} (m : String × Value) (ms : List (String × Value))
    (hfuel : (members (m :: ms)).length ≤ fuel) :
    readMembers fuel (members (m :: ms) ++ ['}']) = some (m :: ms) := by
  have hpos := length_members_pos m ms
  induction ms generalizing fuel m with
  | nil =>
      obtain ⟨fuel, rfl⟩ := Nat.exists_eq_succ_of_ne_zero (by omega : fuel ≠ 0)
      rw [readMembers, members, readMember_member m (by simp [Delimited])]
      simp only [Option.bind_eq_bind, Option.bind_some, if_pos]
  | cons n ms ih =>
      obtain ⟨fuel, rfl⟩ := Nat.exists_eq_succ_of_ne_zero (by omega : fuel ≠ 0)
      have hrest : (members (n :: ms)).length ≤ fuel := by
        rw [members, List.length_append, List.length_cons] at hfuel
        omega
      have hne : ',' :: (members (n :: ms) ++ ['}']) ≠ ['}'] := by simp
      rw [readMembers, members, List.append_assoc, List.cons_append,
        readMember_member m (by simp [Delimited])]
      simp only [Option.bind_eq_bind, Option.bind_some, hne, if_false, List.head?_cons, if_pos,
        List.tail_cons, ih n hrest (length_members_pos n ms), Option.map_some]

theorem readObject_object (ms : List (String × Value)) : readObject (object ms) = some ms := by
  cases ms with
  | nil => rfl
  | cons m ms =>
      have hpos := length_members_pos m ms
      have hne : object (m :: ms) ≠ ['{', '}'] := by
        intro h
        have hlength := congrArg List.length h
        rw [object, List.length_append, List.length_cons] at hlength
        simp only [List.length_cons, List.length_nil] at hlength
        omega
      rw [readObject, if_neg hne, object, List.cons_append, List.head?_cons, if_pos rfl,
        List.tail_cons]
      apply readMembers_members
      rw [List.length_cons, List.length_append]
      omega

theorem object_inj {ms ms' : List (String × Value)} (h : object ms = object ms') : ms = ms' := by
  have hread := congrArg readObject h
  rw [readObject_object, readObject_object] at hread
  exact Option.some.inj hread

end ExternalStorage.Library.Json
