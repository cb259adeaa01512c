import Mathlib.Data.List.Basic
import Mathlib.Logic.Function.Basic

/-!
# Object stores

A client of a remote object store knows its buckets by the requests it sends.  It relies on what
the service documents of the requests that it takes: an object is replaced as a whole, the parts of
a multipart upload are no object before the upload is completed, and the id of an upload is handed
out once.  The service may turn any request down, and give up any upload.
-/

namespace ExternalStorage.Library.ObjectStores

structure Object (α μ : Type*) where
  bytes : List α
  metadata : μ
  deriving DecidableEq

structure Upload (κ α μ : Type*) where
  key : κ
  metadata : μ
  parts : Nat → Option (List α)

/-- The requests to buckets of type `β`; `none` is a request that is turned down. -/
structure Service (β κ α μ : Type*) where
  object : β → κ → Option (Object α μ)
  /-- The upload of an id, as long as it is in progress. -/
  upload : β → Nat → Option (Upload κ α μ)
  issued : β → Nat → Prop
  putObject : β → κ → Object α μ → Option β
  deleteObject : β → κ → Option β
  createMultipartUpload : β → κ → μ → Option (β × Nat)
  uploadPart : β → κ → Nat → Nat → List α → Option β
  completeMultipartUpload : β → κ → Nat → List Nat → Option β
  abortMultipartUpload : β → κ → Nat → Option β
  /-- The service gives up on an upload. -/
  expire : β → Nat → β

variable {β κ α μ : Type*}

/-- What a reader of the bucket sees. -/
def Service.visible (S : Service β κ α μ) (b : β) : κ → Option (List α) :=
  fun key => (S.object b key).map Object.bytes

/-- Uploads other than `own` are left as they are, or given up. -/
structure Spares (S : Service β κ α μ) (b b' : β) (own : Option Nat) : Prop where
  issued : ∀ id, S.issued b id → S.issued b' id
  uploads : ∀ id, S.issued b id → own ≠ some id →
    ∀ u, S.upload b' id = some u → S.upload b id = some u

/-- What the service documents. -/
structure Documented [DecidableEq κ] (S : Service β κ α μ) : Prop where
  putObject : ∀ {b b' key o}, S.putObject b key o = some b' →
    S.object b' = Function.update (S.object b) key (some o) ∧ Spares S b b' none
  deleteObject : ∀ {b b' key}, S.deleteObject b key = some b' →
    S.object b' = Function.update (S.object b) key none ∧ Spares S b b' none
  createMultipartUpload : ∀ {b b' key metadata id},
    S.createMultipartUpload b key metadata = some (b', id) →
      S.object b' = S.object b ∧ ¬ S.issued b id ∧ S.issued b' id ∧ Spares S b b' none ∧
        ∀ u, S.upload b' id = some u → u = ⟨key, metadata, fun _ => none⟩
  uploadPart : ∀ {b b' key id number body}, S.uploadPart b key id number body = some b' →
    S.object b' = S.object b ∧ Spares S b b' (some id) ∧
      ∀ u', S.upload b' id = some u' → ∃ u, S.upload b id = some u ∧
        u' = { u with parts := Function.update u.parts number (some body) }
  completeMultipartUpload : ∀ {b b' key id numbers},
    S.completeMultipartUpload b key id numbers = some b' →
      ∃ u bodies, S.upload b id = some u ∧ numbers.mapM u.parts = some bodies ∧
        S.object b' = Function.update (S.object b) key (some ⟨bodies.flatten, u.metadata⟩) ∧
          Spares S b b' none
  abortMultipartUpload : ∀ {b b' key id}, S.abortMultipartUpload b key id = some b' →
    S.object b' = S.object b ∧ Spares S b b' none
  expire : ∀ b id, S.object (S.expire b id) = S.object b ∧ Spares S b (S.expire b id) none

section Service

variable {S : Service β κ α μ} {b b' : β}

theorem spares_refl (own : Option Nat) : Spares S b b own := ⟨fun _ h => h, fun _ _ _ _ h => h⟩

theorem Spares.weaken (h : Spares S b b' none) (own : Option Nat) : Spares S b b' own :=
  ⟨h.issued, fun id hid _ => h.uploads id hid (by simp)⟩

theorem visible_eq (h : S.object b' = S.object b) : S.visible b' = S.visible b := by
  unfold Service.visible
  rw [h]

theorem visible_update [DecidableEq κ] {key : κ} {o : Object α μ}
    (h : S.object b' = Function.update (S.object b) key (some o)) :
    S.visible b' = Function.update (S.visible b) key (some o.bytes) := by
  funext k
  rw [Service.visible, h]
  by_cases hk : k = key
  · rw [hk, Function.update_self, Function.update_self]
    rfl
  · rw [Function.update_of_ne hk, Function.update_of_ne hk]
    rfl

end Service

/-! ## Parts sent in order -/

/-- The parts under their numbers, from 1 on. -/
def numbered (parts : List (List α)) : Nat → Option (List α)
  | 0 => none
  | n + 1 => parts[n]?

theorem numbered_nil : numbered ([] : List (List α)) = fun _ => none := by
  funext n
  cases n <;> rfl

theorem numbered_append (parts : List (List α)) (part : List α) :
    Function.update (numbered parts) (parts.length + 1) (some part) =
      numbered (parts ++ [part]) := by
  funext n
  cases n with
  | zero => simp [numbered]
  | succ n =>
      rw [Function.update_apply]
      by_cases hn : n = parts.length
      · simp [numbered, hn]
      · rw [if_neg (by omega), numbered, numbered]
        rcases Nat.lt_or_gt_of_ne hn with hlt | hgt
        · rw [List.getElem?_append_left hlt]
        · rw [List.getElem?_eq_none (by omega), List.getElem?_eq_none (by simp; omega)]

theorem mapM_numbered (parts before : List (List α)) :
    (List.range' (before.length + 1) parts.length).mapM (numbered (before ++ parts)) =
      some parts := by
  induction parts generalizing before with
  | nil => rfl
  | cons part parts ih =>
      have hrest := ih (before ++ [part])
      rw [List.length_append, List.length_singleton, List.append_assoc,
        List.singleton_append] at hrest
      rw [List.length_cons, List.range'_succ, List.mapM_cons, hrest]
      simp [numbered]

/-- The upload of the id, unless it has been given up, has these parts. -/
structure Holds (S : Service β κ α μ) (b : β) (id : Nat) (key : κ) (metadata : μ)
    (parts : List (List α)) : Prop where
  issued : S.issued b id
  upload : ∀ u, S.upload b id = some u →
    u.key = key ∧ u.metadata = metadata ∧ u.parts = numbered parts

section Parts

variable {S : Service β κ α μ} {b b' : β} {id : Nat} {key : κ} {metadata : μ}
  {parts : List (List α)}

theorem Holds.spared {own : Option Nat} (h : Holds S b id key metadata parts)
    (hspares : Spares S b b' own) (hother : own ≠ some id) :
    Holds S b' id key metadata parts :=
  ⟨hspares.issued id h.issued,
    fun u hu => h.upload u (hspares.uploads id h.issued hother u hu)⟩

variable [DecidableEq κ]

theorem holds_create (hS : Documented S)
    (h : S.createMultipartUpload b key metadata = some (b', id)) :
    Holds S b' id key metadata [] := by
  obtain ⟨-, -, hissued, -, hupload⟩ := hS.createMultipartUpload h
  refine ⟨hissued, fun u hu => ?_⟩
  rw [hupload u hu]
  exact ⟨rfl, rfl, numbered_nil.symm⟩

theorem Holds.part (hS : Documented S) (h : Holds S b id key metadata parts) {body : List α}
    (hpart : S.uploadPart b key id (parts.length + 1) body = some b') :
    Holds S b' id key metadata (parts ++ [body]) := by
  obtain ⟨-, hspares, hupload⟩ := hS.uploadPart hpart
  refine ⟨hspares.issued id h.issued, fun u' hu' => ?_⟩
  obtain ⟨u, hu, rfl⟩ := hupload u' hu'
  obtain ⟨hkey, hmetadata, hparts⟩ := h.upload u hu
  refine ⟨hkey, hmetadata, ?_⟩
  dsimp only
  rw [hparts]
  exact numbered_append parts body

/-- A completed upload becomes visible as its parts in their order. -/
theorem Holds.complete (hS : Documented S) (h : Holds S b id key metadata parts)
    (hcomplete : S.completeMultipartUpload b key id (List.range' 1 parts.length) = some b') :
    S.visible b' = Function.update (S.visible b) key (some parts.flatten) := by
  obtain ⟨u, bodies, hu, hbodies, hobject, -⟩ := hS.completeMultipartUpload hcomplete
  obtain ⟨-, -, hparts⟩ := h.upload u hu
  have hall := mapM_numbered parts []
  rw [List.length_nil, Nat.zero_add, List.nil_append, ← hparts, hbodies] at hall
  rw [visible_update hobject, Option.some.inj hall]

end Parts

end ExternalStorage.Library.ObjectStores
