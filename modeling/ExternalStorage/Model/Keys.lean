import ExternalStorage.Library.Texts
import Mathlib.Algebra.Order.Ring.Int
import Std.Data.String.ToInt

/-!
# Object keys

Content objects are addressed by their SHA-256 text and manifests by problem and
generation (`models.rs`).  The two families never meet, and a manifest key
determines the problem and the generation it was made from.
-/

namespace ExternalStorage.Model

open Library.Texts

/-- `&sha256[..2]`. -/
def firstTwo (sha256 : String) : String := String.ofList (sha256.toList.take 2)

def objectKeyForSha256 (sha256 : String) : String :=
  "objects/sha256/" ++ firstTwo sha256 ++ "/" ++ sha256

def manifestKey (problemId : String) (generation : Int) : String :=
  "snapshots/" ++ problemId ++ "/" ++ toString generation ++ "/manifest.json"

/-- `&sha256[..2]` of any text, the characters that fill its first two bytes; where they end
inside a character the program panics. -/
def firstTwo? (sha256 : String) : Option String :=
  match sha256.toList with
  | [] => none
  | [a] => if a.utf8Size = 2 then some (String.ofList [a]) else none
  | a :: b :: _ =>
      if a.utf8Size = 2 then
        some (String.ofList [a])
      else if a.utf8Size = 1 ∧ b.utf8Size = 1 then
        some (String.ofList [a, b])
      else
        none

def objectKeyForSha256? (sha256 : String) : Option String :=
  (firstTwo? sha256).map fun first2 => "objects/sha256/" ++ first2 ++ "/" ++ sha256

theorem notMem_digits {c : Char} (hc : c.isDigit = false) (n : Nat) :
    c ∉ (Nat.repr n).toList := by
  intro h
  have hdigit := Nat.isDigit_of_mem_toDigits (b := 10) (n := n) (by decide) (by decide)
    (by simpa [Nat.repr] using h)
  rw [hc] at hdigit
  cases hdigit

theorem notMem_toString {c : Char} (hc : c.isDigit = false) (hminus : c ≠ '-') (g : Int) :
    c ∉ (toString g).toList := by
  cases g with
  | ofNat n => exact notMem_digits hc n
  | negSucc n =>
      have hrepr : (toString (Int.negSucc n)).toList = '-' :: (Nat.repr (n + 1)).toList := by
        change ("-" ++ Nat.repr (n + 1)).toList = _
        simp
      rw [hrepr, List.mem_cons, not_or]
      exact ⟨hminus, notMem_digits hc _⟩

theorem toString_int_injective {a b : Int} (h : toString a = toString b) : a = b :=
  Int.repr_injective h

theorem manifest_text_inj {p q s t : String} (hs : '/' ∉ s.toList) (ht : '/' ∉ t.toList)
    (h : "snapshots/" ++ p ++ "/" ++ s ++ "/manifest.json" =
      "snapshots/" ++ q ++ "/" ++ t ++ "/manifest.json") : p = q ∧ s = t := by
  have hlist := congrArg String.toList h
  simp only [String.toList_append, List.append_assoc] at hlist
  have hmiddle := List.append_cancel_left hlist
  simp only [← List.append_assoc] at hmiddle
  have hbody := List.append_cancel_right hmiddle
  have hsplit : p.toList ++ '/' :: s.toList = q.toList ++ '/' :: t.toList := by
    simpa using hbody
  obtain ⟨hp, hst⟩ := split_last hs ht hsplit
  exact ⟨String.toList_injective hp, String.toList_injective hst⟩

theorem manifestKey_injective {p q : String} {g h : Int}
    (heq : manifestKey p g = manifestKey q h) : p = q ∧ g = h := by
  obtain ⟨hp, hg⟩ := manifest_text_inj (notMem_toString rfl (by decide) g)
    (notMem_toString rfl (by decide) h) heq
  exact ⟨hp, toString_int_injective hg⟩

theorem objectKeyForSha256_injective {sha sha' : String}
    (h : objectKeyForSha256 sha = objectKeyForSha256 sha') : sha = sha' := by
  have hlist := congrArg String.toList h
  simp only [objectKeyForSha256, firstTwo, String.toList_append, List.append_assoc,
    String.toList_ofList] at hlist
  have hbody := List.append_cancel_left hlist
  have hlength := congrArg List.length hbody
  simp only [List.length_append, List.length_take] at hlength
  have htail : sha.toList.length = sha'.toList.length := by omega
  have hparts := List.append_inj' hbody (by simp [htail])
  exact String.toList_injective (List.append_inj' hparts.2 htail).2

theorem manifestKey_ne_objectKey (p : String) (g : Int) (sha256 : String) :
    manifestKey p g ≠ objectKeyForSha256 sha256 := by
  intro h
  have hlist := congrArg String.toList h
  simp [manifestKey, objectKeyForSha256] at hlist

end ExternalStorage.Model
