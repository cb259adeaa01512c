import ExternalStorage.Model.ObjectKeys

/-!
# The keys that the validator accepts

The validator is compared with the two functions that make keys.  It accepts every key
they make of an id and a generation it knows, and it parts from them in two places: a hash
whose second byte is inside a character, and a generation written with a plus or with
zeros before it.
-/

namespace ExternalStorage.Snapshot

open ExternalStorage.Model
open Library.Texts

/-! ## What a key should be -/

/-- 64 hexadecimal digits. -/
structure Sha256Text (hash : String) : Prop where
  length : hash.length = 64
  digits : ∀ c ∈ hash.toList, c.isHexDigit = true

structure ManagedId (problemId : String) : Prop where
  nonempty : problemId ≠ ""
  notCur : problemId ≠ "."
  notParent : problemId ≠ ".."
  alphabet : ∀ c ∈ problemId.toList, managedIdChar c = true

/-- A positive `i64`. -/
def PositiveGeneration (g : Int) : Prop := 0 < g ∧ g < 2 ^ 63

def IsContentKey (key : String) : Prop :=
  ∃ hash, Sha256Text hash ∧ key = objectKeyForSha256 hash

def IsManifestKey (key : String) : Prop :=
  ∃ p g, ManagedId p ∧ PositiveGeneration g ∧ key = manifestKey p g

def CutsCharacter (hash : String) : Prop :=
  ∀ first rest : String, hash = first ++ rest → utf8Len first ≠ 2

/-- Two and 64 bytes where the hash belongs, with a character across its second byte. -/
def CutKey (key : String) : Prop :=
  ∃ first hash : String, key = "objects/sha256/" ++ first ++ "/" ++ hash ∧
    '/' ∉ first.toList ∧ '/' ∉ hash.toList ∧
    utf8Len first = 2 ∧ utf8Len hash = 64 ∧ CutsCharacter hash

/-- Other ways to write a number that `str::parse` reads. -/
def paddedGeneration (plus : Bool) (zeros : Nat) (g : Int) : String :=
  (if plus then "+" else "") ++ String.ofList (List.replicate zeros '0') ++ toString g

def LooseManifest (key : String) : Prop :=
  ∃ p plus zeros g, ManagedId p ∧ PositiveGeneration g ∧ (plus = true ∨ 0 < zeros) ∧
    key = "snapshots/" ++ p ++ "/" ++ paddedGeneration plus zeros g ++ "/manifest.json"

/-! ## Parts -/

theorem stripPrefix_eq_some {start key rest : String} :
    stripPrefix start key = some rest ↔ key = start ++ rest := by
  rw [stripPrefix, Option.map_eq_some_iff]
  constructor
  · rintro ⟨chars, hdrop, rfl⟩
    obtain ⟨pre, hkey, hpre⟩ := List.dropPrefix?_eq_some_iff.mp hdrop
    apply String.toList_injective
    rw [hkey, eq_of_beq hpre, String.toList_append, String.toList_ofList]
  · rintro rfl
    refine ⟨rest.toList, ?_, String.ofList_toList⟩
    rw [String.toList_append]
    exact List.dropPrefix?_append_of_beq _ (beq_self_eq_true _)

theorem joinPath_two (a b : String) : joinPath [a, b] = a ++ "/" ++ b := by
  apply String.toList_injective
  simp [joinPath, List.intercalate]

theorem joinPath_four (a b c d : String) :
    joinPath [a, b, c, d] = a ++ "/" ++ b ++ "/" ++ c ++ "/" ++ d := by
  apply String.toList_injective
  simp [joinPath, List.intercalate]

/-! ## Hashes -/

theorem utf8Size_of_isHexDigit {c : Char} (hc : c.isHexDigit = true) : c.utf8Size = 1 := by
  rw [Char.utf8Size_eq_one_iff]
  simp only [Char.isHexDigit, Char.isDigit, Bool.or_eq_true, Bool.and_eq_true, decide_eq_true_eq,
    ge_iff_le, UInt32.le_iff_toNat_le] at hc ⊢
  simp at hc ⊢
  omega

theorem utf8Len_of_hex {text : String} (h : ∀ c ∈ text.toList, c.isHexDigit = true) :
    utf8Len text = text.length := by
  have hones : text.toList.map Char.utf8Size = text.toList.map fun _ => 1 :=
    List.map_congr_left fun c hc => utf8Size_of_isHexDigit (h c hc)
  rw [utf8Len, hones, ← String.length_toList]
  simp

theorem firstTwo?_eq_some {hash first : String} :
    firstTwo? hash = some first ↔ utf8Len first = 2 ∧ ∃ rest, hash = first ++ rest := by
  constructor
  · intro h
    unfold firstTwo? at h
    split at h
    · cases h
    · rename_i a hlist
      obtain ⟨hsize, hfirst⟩ := Option.ite_none_right_eq_some.mp h
      cases hfirst
      refine ⟨by simpa [utf8Len] using hsize, "", String.toList_injective ?_⟩
      simpa using hlist
    · rename_i a b tail hlist
      split at h
      · rename_i hsize
        cases h
        refine ⟨by simpa [utf8Len] using hsize, String.ofList (b :: tail),
          String.toList_injective ?_⟩
        simpa using hlist
      · obtain ⟨⟨ha, hb⟩, hfirst⟩ := Option.ite_none_right_eq_some.mp h
        cases hfirst
        refine ⟨by simp [utf8Len, ha, hb], String.ofList tail, String.toList_injective ?_⟩
        simpa using hlist
  · rintro ⟨hlen, rest, rfl⟩
    unfold firstTwo?
    rw [String.toList_append]
    -- The characters of two bytes are one or two.
    match hlist : first.toList with
    | [] => simp [utf8Len, hlist] at hlen
    | [a] =>
        have ha : a.utf8Size = 2 := by simpa [utf8Len, hlist] using hlen
        have hfirst : String.ofList [a] = first := by rw [← hlist, String.ofList_toList]
        cases hrest : rest.toList <;> simp [ha, hfirst]
    | [a, b] =>
        have hsum : a.utf8Size + b.utf8Size = 2 := by simpa [utf8Len, hlist] using hlen
        have ha := a.utf8Size_pos
        have hb := b.utf8Size_pos
        have hfirst : String.ofList [a, b] = first := by rw [← hlist, String.ofList_toList]
        have hone : a.utf8Size = 1 ∧ b.utf8Size = 1 := by omega
        simp [hone, hfirst]
    | a :: b :: c :: tail =>
        have hsum : a.utf8Size + (b.utf8Size + (c.utf8Size + (tail.map Char.utf8Size).sum)) = 2 := by
          simpa [utf8Len, hlist] using hlen
        have ha := a.utf8Size_pos
        have hb := b.utf8Size_pos
        have hc := c.utf8Size_pos
        omega

theorem firstTwo?_eq_none {hash : String} : firstTwo? hash = none ↔ CutsCharacter hash := by
  rw [Option.eq_none_iff_forall_ne_some]
  constructor
  · intro h first rest hhash hlen
    exact h first (firstTwo?_eq_some.mpr ⟨hlen, rest, hhash⟩)
  · intro h first hfirst
    obtain ⟨hlen, rest, hhash⟩ := firstTwo?_eq_some.mp hfirst
    exact h first rest hhash hlen

theorem toList_firstTwo_subset {hash : String} {c : Char} (hc : c ∈ (firstTwo hash).toList) :
    c ∈ hash.toList := by
  rw [firstTwo, String.toList_ofList] at hc
  exact List.mem_of_mem_take hc

theorem firstTwo?_of_hex {hash : String} (hlength : 2 ≤ hash.length)
    (hdigits : ∀ c ∈ hash.toList, c.isHexDigit = true) : firstTwo? hash = some (firstTwo hash) := by
  refine firstTwo?_eq_some.mpr ⟨?_, String.ofList (hash.toList.drop 2), ?_⟩
  · have htake : ∀ c ∈ (firstTwo hash).toList, c.isHexDigit = true :=
      fun c hc => hdigits c (toList_firstTwo_subset hc)
    rw [utf8Len_of_hex htake, ← String.length_toList, firstTwo, String.toList_ofList,
      List.length_take, String.length_toList, Nat.min_eq_left hlength]
  · apply String.toList_injective
    rw [firstTwo, String.toList_append, String.toList_ofList, String.toList_ofList,
      List.take_append_drop]

theorem slash_notMem_of_hex {text : String} (h : ∀ c ∈ text.toList, c.isHexDigit = true) :
    '/' ∉ text.toList :=
  fun hslash => absurd (h '/' hslash) (by decide)

/-! ## Content keys -/

theorem validateContentObjectKey?_shape (key : String)
    (h : validateContentObjectKey? key ≠ some (.error (.pathEscape key))) :
    ∃ first hash : String, key = "objects/sha256/" ++ first ++ "/" ++ hash ∧
      '/' ∉ first.toList ∧ '/' ∉ hash.toList ∧ utf8Len first = 2 ∧ utf8Len hash = 64 := by
  unfold validateContentObjectKey? at h
  split at h
  · exact absurd rfl h
  · rename_i rest hstrip
    split at h
    · rename_i first hash hparts
      split at h
      · exact absurd rfl h
      · rename_i hlen
        obtain ⟨hrest, hslash⟩ := (pathParts_eq_iff (List.cons_ne_nil _ _)).mp hparts
        have hlengths : utf8Len first = 2 ∧ utf8Len hash = 64 := by
          simpa only [not_or, not_not] using hlen
        refine ⟨first, hash, ?_, hslash first (by simp), hslash hash (by simp), hlengths.1,
          hlengths.2⟩
        rw [stripPrefix_eq_some.mp hstrip, hrest, joinPath_two, String.append_assoc,
          String.append_assoc, String.append_assoc]
    · exact absurd rfl h

theorem validateContentObjectKey?_of_shape {first hash : String} (hfirst : '/' ∉ first.toList)
    (hhash : '/' ∉ hash.toList) (htwo : utf8Len first = 2) (hlong : utf8Len hash = 64) :
    validateContentObjectKey? ("objects/sha256/" ++ first ++ "/" ++ hash) =
      (firstTwo? hash).map fun first2 =>
        refuseIf (first ≠ first2 ∨ ¬ [first, hash].all fun p => p.toList.all Char.isHexDigit)
          (.pathEscape ("objects/sha256/" ++ first ++ "/" ++ hash)) := by
  have hkey : "objects/sha256/" ++ first ++ "/" ++ hash =
      "objects/sha256/" ++ joinPath [first, hash] := by
    rw [joinPath_two, String.append_assoc, String.append_assoc, String.append_assoc]
  have hstrip : stripPrefix "objects/sha256/" ("objects/sha256/" ++ first ++ "/" ++ hash) =
      some (joinPath [first, hash]) := stripPrefix_eq_some.mpr hkey
  have hparts : pathParts (joinPath [first, hash]) = [first, hash] :=
    pathParts_joinPath (List.cons_ne_nil _ _) (by simp [hfirst, hhash])
  unfold validateContentObjectKey?
  simp only [hstrip, hparts, htwo, hlong, ne_eq, not_true_eq_false, or_self, if_false]

theorem validateContentObjectKey?_eq_none {key : String} :
    validateContentObjectKey? key = none ↔ CutKey key := by
  constructor
  · intro h
    obtain ⟨first, hash, rfl, hfirst, hhash, htwo, hlong⟩ :=
      validateContentObjectKey?_shape key (by rw [h]; nofun)
    rw [validateContentObjectKey?_of_shape hfirst hhash htwo hlong, Option.map_eq_none_iff,
      firstTwo?_eq_none] at h
    exact ⟨first, hash, rfl, hfirst, hhash, htwo, hlong, h⟩
  · rintro ⟨first, hash, rfl, hfirst, hhash, htwo, hlong, hcut⟩
    rw [validateContentObjectKey?_of_shape hfirst hhash htwo hlong, Option.map_eq_none_iff]
    exact firstTwo?_eq_none.mpr hcut

theorem validateContentObjectKey?_eq_ok {key : String} :
    validateContentObjectKey? key = some (.ok ()) ↔ IsContentKey key := by
  constructor
  · intro h
    obtain ⟨first, hash, rfl, hfirst, hhash, htwo, hlong⟩ :=
      validateContentObjectKey?_shape key (by rw [h]; nofun)
    rw [validateContentObjectKey?_of_shape hfirst hhash htwo hlong, Option.map_eq_some_iff] at h
    obtain ⟨first2, hslice, hcheck⟩ := h
    obtain ⟨rfl, hhex⟩ : first = first2 ∧
        ([first, hash].all fun p => p.toList.all Char.isHexDigit) = true := by
      simpa only [refuseIf_eq_ok, not_or, not_not] using hcheck
    have hdigits : ∀ c ∈ hash.toList, c.isHexDigit = true := by
      simp only [List.all_cons, List.all_nil, Bool.and_eq_true, List.all_eq_true] at hhex
      exact hhex.2.1
    have hlength : hash.length = 64 := (utf8Len_of_hex hdigits).symm.trans hlong
    have hsame : first = firstTwo hash :=
      Option.some.inj (hslice.symm.trans (firstTwo?_of_hex (by omega) hdigits))
    exact ⟨hash, ⟨hlength, hdigits⟩, by rw [hsame, objectKeyForSha256]⟩
  · rintro ⟨hash, hsha, rfl⟩
    have hstart : ∀ c ∈ (firstTwo hash).toList, c.isHexDigit = true :=
      fun c hc => hsha.digits c (toList_firstTwo_subset hc)
    have hslice := firstTwo?_of_hex (by rw [hsha.length]; decide) hsha.digits
    rw [objectKeyForSha256, validateContentObjectKey?_of_shape (slash_notMem_of_hex hstart)
      (slash_notMem_of_hex hsha.digits) (firstTwo?_eq_some.mp hslice).1
      ((utf8Len_of_hex hsha.digits).trans hsha.length), hslice, Option.map_some]
    refine congrArg some (refuseIf_eq_ok.mpr ?_)
    simp only [ne_eq, not_true_eq_false, false_or, not_not, List.all_cons, List.all_nil,
      Bool.and_eq_true, List.all_eq_true]
    exact ⟨hstart, hsha.digits, trivial⟩

/-! ## Generations -/

theorem parseDigits_eq_some {text : List Char} {n : Nat} :
    parseDigits text = some n ↔
      text ≠ [] ∧ (∀ c ∈ text, c.isDigit = true) ∧ Nat.ofDigitChars 10 text 0 = n := by
  rw [parseDigits, Option.ite_none_right_eq_some, Option.some.injEq, List.all_eq_true, and_assoc]

theorem toList_paddedGeneration (plus : Bool) (zeros n : Nat) :
    (paddedGeneration plus zeros n).toList =
      (if plus then ['+'] else []) ++ (List.replicate zeros '0' ++ Nat.toDigits 10 n) := by
  have hdigits : (toString (n : Int)).toList = Nat.toDigits 10 n := Nat.toList_repr
  rw [paddedGeneration, String.toList_append, String.toList_append, String.toList_ofList, hdigits,
    List.append_assoc]
  cases plus <;> rfl

theorem parseDigits_padded {n : Nat} (zeros : Nat) :
    parseDigits (List.replicate zeros '0' ++ Nat.toDigits 10 n) = some n := by
  refine parseDigits_eq_some.mpr ⟨?_, ?_, ?_⟩
  · simp
  · intro c hc
    rcases List.mem_append.mp hc with hzero | hdigit
    · rw [List.eq_of_mem_replicate hzero]
      rfl
    · exact Nat.isDigit_of_mem_toDigits (by decide) (by decide) hdigit
  · rw [Nat.ofDigitChars_append, Nat.ofDigitChars_replicate_zero, Nat.mul_zero,
      Nat.ofDigitChars_ten_toDigits]

theorem parseI64_of_digit {text : String} {c : Char} {cs : List Char}
    (htext : text.toList = c :: cs) (hc : c.isDigit = true) :
    parseI64 text =
      (parseDigits (c :: cs)).bind fun n => if n < 2 ^ 63 then some (n : Int) else none := by
  unfold parseI64
  rw [htext]
  split
  · rename_i heq
    obtain ⟨rfl, -⟩ := List.cons.inj heq
    exact absurd hc (by decide)
  · rename_i heq
    obtain ⟨rfl, -⟩ := List.cons.inj heq
    exact absurd hc (by decide)
  · rfl

theorem parseI64_padded {plus : Bool} {zeros : Nat} {g : Int} (hg : PositiveGeneration g) :
    parseI64 (paddedGeneration plus zeros g) = some g := by
  obtain ⟨hpos, hrange⟩ := hg
  lift g to Nat using Int.le_of_lt hpos
  have hfits : g < 2 ^ 63 := by exact_mod_cast hrange
  have hread : ((parseDigits (List.replicate zeros '0' ++ Nat.toDigits 10 g)).bind fun n =>
      if n < 2 ^ 63 then some (n : Int) else none) = some (g : Int) := by
    rw [parseDigits_padded, Option.bind_some, if_pos hfits]
  have htext := toList_paddedGeneration plus zeros g
  cases plus with
  | true =>
      unfold parseI64
      rw [htext]
      exact hread
  | false =>
      obtain ⟨hne, hall, -⟩ := parseDigits_eq_some.mp (parseDigits_padded (n := g) zeros)
      obtain ⟨c, cs, hdigits⟩ := List.exists_cons_of_ne_nil hne
      have hc : c.isDigit = true := hall c (hdigits ▸ List.mem_cons_self)
      rw [parseI64_of_digit (htext.trans hdigits) hc, ← hdigits]
      exact hread

theorem padded_of_parseDigits {digits : List Char} {g : Int}
    (h : ((parseDigits digits).bind fun n => if n < 2 ^ 63 then some (n : Int) else none) = some g)
    (hpos : 0 < g) :
    PositiveGeneration g ∧ ∃ zeros n, g = Int.ofNat n ∧
      digits = List.replicate zeros '0' ++ Nat.toDigits 10 n := by
  obtain ⟨n, hparse, hrange⟩ := Option.bind_eq_some_iff.mp h
  obtain ⟨hfits, hg⟩ := Option.ite_none_right_eq_some.mp hrange
  cases hg
  obtain ⟨-, hdigits, hvalue⟩ := parseDigits_eq_some.mp hparse
  obtain ⟨zeros, hzeros⟩ := exists_zeros_toDigits hdigits (by omega)
  rw [hvalue] at hzeros
  exact ⟨⟨hpos, by exact_mod_cast hfits⟩, zeros, n, rfl, hzeros⟩

theorem parseI64_pos {text : String} :
    (parseI64 text).any (0 < ·) = true ↔
      ∃ plus zeros g, PositiveGeneration g ∧ text = paddedGeneration plus zeros g := by
  constructor
  · intro h
    obtain ⟨g, hparse, hg⟩ := (Option.any_eq_true _ _).mp h
    replace hg : 0 < g := of_decide_eq_true hg
    have hpadded : ∀ (plus : Bool) (digits : List Char),
        ((parseDigits digits).bind fun n => if n < 2 ^ 63 then some (n : Int) else none) =
            some g →
          text.toList = (if plus then ['+'] else []) ++ digits →
          ∃ plus zeros g, PositiveGeneration g ∧ text = paddedGeneration plus zeros g := by
      intro plus digits hdigits htext
      obtain ⟨hgen, zeros, n, rfl, rfl⟩ := padded_of_parseDigits hdigits hg
      refine ⟨plus, zeros, _, hgen, String.toList_injective ?_⟩
      exact htext.trans (toList_paddedGeneration plus zeros n).symm
    unfold parseI64 at hparse
    split at hparse
    · rename_i digits htext
      exact hpadded true digits hparse htext
    · -- A minus makes no positive number.
      obtain ⟨n, -, hrange⟩ := Option.bind_eq_some_iff.mp hparse
      obtain ⟨-, hminus⟩ := Option.ite_none_right_eq_some.mp hrange
      cases hminus
      omega
    · exact hpadded false _ hparse rfl
  · rintro ⟨plus, zeros, g, hg, rfl⟩
    rw [parseI64_padded hg]
    simpa using hg.1

theorem slash_notMem_paddedGeneration {plus : Bool} {zeros : Nat} {g : Int} :
    '/' ∉ (paddedGeneration plus zeros g).toList := by
  rw [paddedGeneration, String.toList_append, String.toList_append, String.toList_ofList,
    List.mem_append, List.mem_append, not_or, not_or]
  refine ⟨⟨?_, ?_⟩, notMem_toString rfl (by decide) g⟩
  · cases plus <;> decide
  · exact fun hmem => absurd (List.eq_of_mem_replicate hmem) (by decide)

theorem paddedGeneration_ne_toString {plus : Bool} {zeros : Nat} {g h : Int}
    (hg : PositiveGeneration g) (hh : PositiveGeneration h) (hpad : plus = true ∨ 0 < zeros) :
    paddedGeneration plus zeros g ≠ toString h := by
  intro heq
  have hgpos := Int.le_of_lt hg.1
  have hhpos := hh.1
  lift g to Nat using hgpos
  lift h to Nat using Int.le_of_lt hhpos
  obtain ⟨c, cs, hdigits, hc, hzero⟩ := head_toDigits (n := h) (by omega)
  have hlist : (paddedGeneration plus zeros g).toList = c :: cs := by
    rw [heq, ← hdigits]
    exact Nat.toList_repr
  rw [toList_paddedGeneration] at hlist
  cases plus with
  | true =>
      obtain ⟨rfl, -⟩ := List.cons.inj hlist
      exact absurd hc (by decide)
  | false =>
      cases zeros with
      | zero => simp at hpad
      | succ zeros => exact hzero (List.cons.inj hlist).1.symm

/-! ## Manifest keys -/

theorem slash_notMem_of_managedId {p : String} (hp : ManagedId p) : '/' ∉ p.toList :=
  fun hslash => absurd (hp.alphabet '/' hslash) (by decide)

theorem pathParts_manifest {p text : String} (hp : '/' ∉ p.toList) (htext : '/' ∉ text.toList) :
    pathParts ("snapshots/" ++ p ++ "/" ++ text ++ "/manifest.json") =
      ["snapshots", p, text, "manifest.json"] := by
  have hkey : "snapshots/" ++ p ++ "/" ++ text ++ "/manifest.json" =
      joinPath ["snapshots", p, text, "manifest.json"] := by
    rw [joinPath_four]
    apply String.toList_injective
    simp
  rw [hkey]
  refine pathParts_joinPath (List.cons_ne_nil _ _) ?_
  simp only [List.forall_mem_cons]
  exact ⟨by decide, hp, htext, by decide, nofun⟩

theorem validManifest_pathParts {key : String} :
    validManifest (pathParts key) = true ↔
      ∃ p plus zeros g, ManagedId p ∧ PositiveGeneration g ∧
        key = "snapshots/" ++ p ++ "/" ++ paddedGeneration plus zeros g ++ "/manifest.json" := by
  constructor
  · intro h
    unfold validManifest at h
    split at h
    · rename_i snapshots p text manifest hparts
      simp only [Bool.and_eq_true, decide_eq_true_eq, Bool.not_eq_true', List.all_eq_true] at h
      obtain ⟨⟨⟨⟨⟨⟨rfl, hempty⟩, hcur⟩, hparent⟩, halphabet⟩, hgen⟩, rfl⟩ := h
      obtain ⟨plus, zeros, g, hg, rfl⟩ := parseI64_pos.mp hgen
      refine ⟨p, plus, zeros, g, ⟨?_, hcur, hparent, halphabet⟩, hg, ?_⟩
      · rintro rfl
        cases hempty
      · rw [((pathParts_eq_iff (List.cons_ne_nil _ _)).mp hparts).1, joinPath_four]
        apply String.toList_injective
        simp
    · cases h
  · rintro ⟨p, plus, zeros, g, hp, hg, rfl⟩
    rw [pathParts_manifest (slash_notMem_of_managedId hp) slash_notMem_paddedGeneration]
    have hgen := parseI64_pos.mpr ⟨plus, zeros, g, hg, rfl⟩
    have hempty : p.isEmpty = false := by
      rw [String.isEmpty_eq_false_iff]
      exact hp.nonempty
    simp only [validManifest, hempty, hgen, Bool.and_eq_true, decide_eq_true_eq, Bool.not_false,
      List.all_eq_true]
    exact ⟨⟨⟨⟨⟨⟨trivial, trivial⟩, hp.notCur⟩, hp.notParent⟩, hp.alphabet⟩, trivial⟩, trivial⟩

theorem isManifestKey_or_loose {key : String} :
    validManifest (pathParts key) = true ↔ IsManifestKey key ∨ LooseManifest key := by
  rw [validManifest_pathParts]
  constructor
  · rintro ⟨p, plus, zeros, g, hp, hg, rfl⟩
    by_cases hpad : plus = true ∨ 0 < zeros
    · exact .inr ⟨p, plus, zeros, g, hp, hg, hpad, rfl⟩
    · obtain ⟨hplus, hzeros⟩ := not_or.mp hpad
      have hplain : paddedGeneration plus zeros g = toString g := by
        rw [Bool.not_eq_true] at hplus
        rw [hplus, Nat.eq_zero_of_not_pos hzeros]
        exact String.empty_append
      exact .inl ⟨p, g, hp, hg, by rw [hplain, manifestKey]⟩
  · rintro (⟨p, g, hp, hg, rfl⟩ | ⟨p, plus, zeros, g, hp, hg, -, rfl⟩)
    · refine ⟨p, false, 0, g, hp, hg, ?_⟩
      have hplain : paddedGeneration false 0 g = toString g := String.empty_append
      rw [hplain, manifestKey]
    · exact ⟨p, plus, zeros, g, hp, hg, rfl⟩

theorem not_isManifestKey_of_loose {key : String} (h : LooseManifest key) : ¬ IsManifestKey key := by
  obtain ⟨p, plus, zeros, g, hp, hg, hpad, rfl⟩ := h
  rintro ⟨q, g', hq, hg', hkey⟩
  have hparts := congrArg pathParts hkey
  rw [manifestKey, pathParts_manifest (slash_notMem_of_managedId hp) slash_notMem_paddedGeneration,
    pathParts_manifest (slash_notMem_of_managedId hq) (notMem_toString rfl (by decide) g')] at hparts
  exact paddedGeneration_ne_toString hg hg' hpad (List.cons.inj (List.cons.inj
    (List.cons.inj hparts).2).2).1

/-! ## The validator -/

theorem not_manifest_of_content {key rest : String} (h : key = "objects/sha256/" ++ rest) :
    ¬ IsManifestKey key ∧ ¬ LooseManifest key := by
  constructor
  · rintro ⟨p, g, -, -, hkey⟩
    have hlist := congrArg String.toList (h.symm.trans hkey)
    simp [manifestKey] at hlist
  · rintro ⟨p, plus, zeros, g, -, -, -, hkey⟩
    have hlist := congrArg String.toList (h.symm.trans hkey)
    simp at hlist

theorem content_starts {key : String} (h : IsContentKey key ∨ CutKey key) :
    ∃ rest, stripPrefix "objects/sha256/" key = some rest := by
  rcases h with ⟨hash, -, rfl⟩ | ⟨first, hash, rfl, -⟩
  · exact ⟨_, stripPrefix_eq_some.mpr (by
      rw [objectKeyForSha256, String.append_assoc, String.append_assoc])⟩
  · exact ⟨_, stripPrefix_eq_some.mpr (by rw [String.append_assoc, String.append_assoc])⟩

/-- The validator returns, and it accepts exactly the keys that the program can make. -/
def ExactOn (key : String) : Prop :=
  ∃ result, validateManagedObjectKey? key = some result ∧
    (result = .ok () ↔ IsContentKey key ∨ IsManifestKey key)

/-- The validator is exact on every key but those two kinds. -/
theorem validate_managed_object_key_exact_iff (key : String) :
    ExactOn key ↔ ¬ CutKey key ∧ ¬ LooseManifest key := by
  unfold ExactOn validateManagedObjectKey?
  cases hstrip : stripPrefix "objects/sha256/" key with
  | some rest =>
      obtain ⟨hmanifest, hloose⟩ := not_manifest_of_content (stripPrefix_eq_some.mp hstrip)
      simp only [Option.isSome_some, if_true, hmanifest, hloose, or_false, not_false_eq_true,
        and_true]
      rw [← validateContentObjectKey?_eq_none, ← validateContentObjectKey?_eq_ok]
      cases validateContentObjectKey? key with
      | none => simp
      | some result => simp
  | none =>
      have hstarts := fun h : IsContentKey key ∨ CutKey key => (content_starts h).elim fun rest hrest =>
        Option.some_ne_none rest (hrest.symm.trans hstrip)
      obtain ⟨hcontent, hcut⟩ := not_or.mp hstarts
      simp only [Option.isSome_none, Bool.false_eq_true, if_false, hcontent, false_or, hcut,
        not_false_eq_true, true_and]
      constructor
      · rintro ⟨result, hresult, hexact⟩ hloose
        refine not_isManifestKey_of_loose hloose (hexact.mp ?_)
        rw [← Option.some.inj hresult, refuseIf_eq_ok, not_not]
        exact isManifestKey_or_loose.mpr (.inr hloose)
      · intro hloose
        refine ⟨_, rfl, ?_⟩
        rw [refuseIf_eq_ok, not_not, isManifestKey_or_loose, or_iff_left hloose]

/-- Three bytes of one character where the hash begins, and a generation with a plus. -/
theorem euro_key_panics_plus_key_passes :
    validateManagedObjectKey? ("objects/sha256/ab/€" ++ String.ofList (List.replicate 61 'a')) =
        none ∧
      validateManagedObjectKey? "snapshots/p1/+1/manifest.json" = some (.ok ()) ∧
      ¬ ExactOn ("objects/sha256/ab/€" ++ String.ofList (List.replicate 61 'a')) ∧
      ¬ ExactOn "snapshots/p1/+1/manifest.json" := by
  have hpanic : validateManagedObjectKey?
      ("objects/sha256/ab/€" ++ String.ofList (List.replicate 61 'a')) = none := by
    decide +kernel
  have hpass : validateManagedObjectKey? "snapshots/p1/+1/manifest.json" = some (.ok ()) := by
    decide +kernel
  refine ⟨hpanic, hpass, ?_, ?_⟩
  · rintro ⟨result, hresult, -⟩
    rw [hpanic] at hresult
    cases hresult
  · rintro ⟨result, hresult, hexact⟩
    obtain rfl := Option.some.inj (hpass.symm.trans hresult)
    have hloose : LooseManifest "snapshots/p1/+1/manifest.json" :=
      ⟨"p1", true, 0, 1, ⟨by decide, by decide, by decide, List.all_eq_true.mp (by decide)⟩,
        ⟨by decide, by decide⟩, .inl rfl, by decide⟩
    rcases hexact.mp rfl with hcontent | hmanifest
    · obtain ⟨rest, hrest⟩ := content_starts (.inl hcontent)
      have hstarts : (stripPrefix "objects/sha256/" "snapshots/p1/+1/manifest.json").isSome =
          false := by decide +kernel
      rw [hrest] at hstarts
      cases hstarts
    · exact not_isManifestKey_of_loose hloose hmanifest

end ExternalStorage.Snapshot
