import Mathlib.Data.List.Infix
import Mathlib.Data.List.Nodup

/-!
# Finite trees as lists of entries

A tree is the list of what lies below its root, each entry under the path that leads to
it.  It is well formed when no path occurs twice and the parent of each entry is a
directory; then a leaf has nothing below it, and the two ways a tree grows keep it well
formed.
-/

namespace ExternalStorage.Library.Trees

variable {α β : Type*} [DecidableEq α]

/-- `none` is a directory, `some b` a leaf. -/
abbrev Tree (α β : Type*) := List (List α × Option β)

def lookup (t : Tree α β) (p : List α) : Option (Option β) :=
  if p = [] then some none else (t.find? fun e => e.1 = p).map Prod.snd

/-- Another leaf takes the place of the one at `p`. -/
def setLeaf (t : Tree α β) (p : List α) (b : β) : Tree α β :=
  t.map fun e => if e.1 = p then (p, some b) else e

structure WellFormed (t : Tree α β) : Prop where
  keys : (t.map Prod.fst).Nodup
  below : ∀ e ∈ t, ∃ dir a, e.1 = dir ++ [a] ∧ lookup t dir = some none

@[simp] theorem lookup_root (t : Tree α β) : lookup t [] = some none := if_pos rfl

theorem mem_of_lookup {t : Tree α β} {p : List α} {x : Option β} (hp : p ≠ [])
    (h : lookup t p = some x) : (p, x) ∈ t := by
  rw [lookup, if_neg hp] at h
  obtain ⟨e, he, rfl⟩ := Option.map_eq_some_iff.mp h
  have hkey : e.1 = p := by simpa using List.find?_some he
  rw [← hkey]
  exact List.mem_of_find?_eq_some he

theorem lookup_eq_none {t : Tree α β} {p : List α} (hp : p ≠ []) :
    lookup t p = none ↔ ∀ e ∈ t, e.1 ≠ p := by
  rw [lookup, if_neg hp, Option.map_eq_none_iff, List.find?_eq_none]
  simp

theorem WellFormed.ne_root {t : Tree α β} (h : WellFormed t) {e : List α × Option β}
    (he : e ∈ t) : e.1 ≠ [] := by
  obtain ⟨dir, a, heq, -⟩ := h.below e he
  rw [heq]
  exact List.append_ne_nil_of_right_ne_nil _ (List.cons_ne_nil a [])

theorem WellFormed.entry_eq {t : Tree α β} (h : WellFormed t) {e e' : List α × Option β}
    (he : e ∈ t) (he' : e' ∈ t) (hkey : e.1 = e'.1) : e = e' :=
  List.inj_on_of_nodup_map h.keys he he' hkey

theorem WellFormed.lookup_of_mem {t : Tree α β} (h : WellFormed t) {p : List α} {x : Option β}
    (hp : (p, x) ∈ t) : lookup t p = some x := by
  have hne : p ≠ [] := h.ne_root hp
  cases hfound : lookup t p with
  | none => exact absurd rfl ((lookup_eq_none hne).mp hfound _ hp)
  | some y => exact congrArg some (congrArg Prod.snd (h.entry_eq (mem_of_lookup hne hfound) hp rfl))

theorem wellFormed_nil : WellFormed ([] : Tree α β) :=
  ⟨List.nodup_nil, fun _ he => absurd he List.not_mem_nil⟩

/-- What lies above an entry are directories. -/
theorem WellFormed.lookup_prefix {t : Tree α β} (h : WellFormed t) {p q : List α}
    {x : Option β} (hq : lookup t q = some x) (hpq : p <+: q) (hne : p ≠ q) :
    lookup t p = some none := by
  induction q using List.reverseRecOn generalizing x with
  | nil => exact absurd (List.prefix_nil.mp hpq) hne
  | append_singleton q a ih =>
      have hmem := mem_of_lookup (List.append_ne_nil_of_right_ne_nil _ (List.cons_ne_nil a [])) hq
      obtain ⟨dir, b, heq, hdir⟩ := h.below _ hmem
      obtain ⟨rfl, -⟩ := List.append_inj' heq rfl
      rcases List.prefix_concat_iff.mp hpq with rfl | hshort
      · exact absurd rfl hne
      · by_cases hsame : p = q
        · rw [hsame]
          exact hdir
        · exact ih hdir hshort hsame

/-- Nothing lies below a leaf. -/
theorem WellFormed.eq_of_leaf_prefix {t : Tree α β} (h : WellFormed t) {p q : List α} {b : β}
    {x : Option β} (hp : (p, some b) ∈ t) (hq : (q, x) ∈ t) (hpq : p <+: q) : p = q := by
  by_contra hne
  have hdir := h.lookup_prefix (h.lookup_of_mem hq) hpq hne
  rw [h.lookup_of_mem hp] at hdir
  cases hdir

theorem lookup_concat {t : Tree α β} {p : List α} {x : Option β} (hp : p ≠ [])
    (hfree : lookup t p = none) (q : List α) :
    lookup (t ++ [(p, x)]) q = if q = p then some x else lookup t q := by
  by_cases hq : q = []
  · subst hq
    rw [lookup_root, lookup_root, if_neg (Ne.symm hp)]
  · rw [lookup, if_neg hq, List.find?_append, lookup, if_neg hq]
    split
    · rename_i heq
      subst heq
      rw [lookup, if_neg hq, Option.map_eq_none_iff] at hfree
      rw [hfree]
      simp
    · rename_i hne
      rw [List.find?_cons_of_neg (by simpa using Ne.symm hne)]
      simp

theorem WellFormed.concat {t : Tree α β} (h : WellFormed t) {dir : List α} {a : α}
    {x : Option β} (hdir : lookup t dir = some none) (hfree : lookup t (dir ++ [a]) = none) :
    WellFormed (t ++ [(dir ++ [a], x)]) := by
  have hne : dir ++ [a] ≠ [] := List.append_ne_nil_of_right_ne_nil _ (List.cons_ne_nil a [])
  have hkeep : ∀ p, lookup t p = some none → lookup (t ++ [(dir ++ [a], x)]) p = some none := by
    intro p hp
    rw [lookup_concat hne hfree, if_neg, hp]
    rintro rfl
    rw [hfree] at hp
    cases hp
  refine ⟨?_, ?_⟩
  · rw [List.map_append]
    refine List.nodup_append.mpr ⟨h.keys, List.nodup_singleton _, ?_⟩
    rintro p hp q hq rfl
    obtain ⟨e, he, rfl⟩ := List.mem_map.mp hp
    exact (lookup_eq_none hne).mp hfree e he (List.mem_singleton.mp hq)
  · intro e he
    rcases List.mem_append.mp he with hold | hnew
    · obtain ⟨dir', a', heq, hdir'⟩ := h.below e hold
      exact ⟨dir', a', heq, hkeep dir' hdir'⟩
    · rw [List.mem_singleton.mp hnew]
      exact ⟨dir, a, rfl, hkeep dir hdir⟩

theorem mem_setLeaf {t : Tree α β} {p : List α} {b : β} {e : List α × Option β} :
    e ∈ setLeaf t p b ↔ (e ∈ t ∧ e.1 ≠ p) ∨ (e = (p, some b) ∧ ∃ x, (p, x) ∈ t) := by
  rw [setLeaf, List.mem_map]
  constructor
  · rintro ⟨e, he, rfl⟩
    split
    · rename_i hkey
      exact .inr ⟨rfl, e.2, hkey ▸ he⟩
    · rename_i hkey
      exact .inl ⟨he, hkey⟩
  · rintro (⟨he, hkey⟩ | ⟨rfl, x, hx⟩)
    · exact ⟨e, he, if_neg hkey⟩
    · exact ⟨(p, x), hx, if_pos rfl⟩

theorem map_fst_setLeaf (t : Tree α β) (p : List α) (b : β) :
    (setLeaf t p b).map Prod.fst = t.map Prod.fst := by
  rw [setLeaf, List.map_map]
  refine List.map_congr_left ?_
  intro e _
  rw [Function.comp_apply]
  split
  · rename_i hkey
    exact hkey.symm
  · rfl

theorem WellFormed.setLeaf {t : Tree α β} (h : WellFormed t) {p : List α} {b b' : β}
    (hp : lookup t p = some (some b')) : WellFormed (setLeaf t p b) := by
  have hne : p ≠ [] := by
    rintro rfl
    rw [lookup_root] at hp
    cases hp
  have hkeep : ∀ dir, lookup t dir = some none → lookup (Trees.setLeaf t p b) dir = some none := by
    intro dir hdir
    by_cases hroot : dir = []
    · rw [hroot, lookup_root]
    · have hmem := mem_of_lookup hroot hdir
      have hkey : dir ≠ p := by
        rintro rfl
        rw [hp] at hdir
        cases hdir
      have hmem' : (dir, none) ∈ Trees.setLeaf t p b := mem_setLeaf.mpr (.inl ⟨hmem, hkey⟩)
      cases hfound : lookup (Trees.setLeaf t p b) dir with
      | none => exact absurd rfl ((lookup_eq_none hroot).mp hfound _ hmem')
      | some x =>
          have hfound' := mem_of_lookup hroot hfound
          rcases mem_setLeaf.mp hfound' with ⟨hold, -⟩ | ⟨hleaf, -⟩
          · exact congrArg some (congrArg Prod.snd (h.entry_eq hold hmem rfl))
          · exact absurd (congrArg Prod.fst hleaf) hkey
  refine ⟨?_, ?_⟩
  · rw [map_fst_setLeaf]
    exact h.keys
  · intro e he
    rcases mem_setLeaf.mp he with ⟨hold, -⟩ | ⟨rfl, -⟩
    · obtain ⟨dir, a, heq, hdir⟩ := h.below e hold
      exact ⟨dir, a, heq, hkeep dir hdir⟩
    · obtain ⟨dir, a, heq, hdir⟩ := h.below _ (mem_of_lookup hne hp)
      exact ⟨dir, a, heq, hkeep dir hdir⟩

/-! ## Growing a tree under a path -/

/-- The directories that are missing on the way from `dir` along `names`. -/
def addDirs (t : Tree α β) (dir : List α) : List α → Tree α β
  | [] => t
  | a :: names =>
      addDirs (if lookup t (dir ++ [a]) = none then t ++ [(dir ++ [a], none)] else t)
        (dir ++ [a]) names

/-- A leaf at `p`, below the directories that it needs. -/
def grow (t : Tree α β) (p : List α) (b : β) : Tree α β :=
  addDirs t [] p.dropLast ++ [(p, some b)]

/-- No leaf lies at or above `p`, and nothing at or below it. -/
structure Open (t : Tree α β) (p : List α) : Prop where
  nonempty : p ≠ []
  above : ∀ q b, (q, some b) ∈ t → ¬ q <+: p
  below : ∀ e ∈ t, ¬ p <+: e.1

theorem mem_addDirs {t : Tree α β} {dir names : List α} {e : List α × Option β} :
    e ∈ addDirs t dir names → e ∈ t ∨ e.2 = none ∧ ∃ q, q ≠ [] ∧ q <+: names ∧ e.1 = dir ++ q := by
  induction names generalizing t dir with
  | nil => exact fun he => .inl he
  | cons a names ih =>
      intro he
      rcases ih he with hmem | ⟨hdir, q, hq, hpre, hkey⟩
      · split at hmem
        · rcases List.mem_append.mp hmem with hold | hnew
          · exact .inl hold
          · rw [List.mem_singleton.mp hnew]
            exact .inr ⟨rfl, [a], List.cons_ne_nil a [], ⟨names, rfl⟩, rfl⟩
        · exact .inl hmem
      · refine .inr ⟨hdir, a :: q, List.cons_ne_nil a q, ?_, ?_⟩
        · exact (List.cons_prefix_cons).mpr ⟨rfl, hpre⟩
        · rw [hkey, List.append_assoc, List.singleton_append]

theorem mem_addDirs_of_mem {t : Tree α β} {dir names : List α} {e : List α × Option β}
    (he : e ∈ t) : e ∈ addDirs t dir names := by
  induction names generalizing t dir with
  | nil => exact he
  | cons a names ih =>
      apply ih
      split
      · exact List.mem_append_left _ he
      · exact he

/-- Directories are added below directories. -/
theorem WellFormed.addDirs {t : Tree α β} (h : WellFormed t) {dir names : List α}
    (hdir : lookup t dir = some none) (hclear : ∀ q b, (q, some b) ∈ t → ¬ q <+: dir ++ names) :
    WellFormed (addDirs t dir names) ∧
      lookup (addDirs t dir names) (dir ++ names) = some none := by
  induction names generalizing t dir with
  | nil =>
      rw [List.append_nil]
      exact ⟨h, hdir⟩
  | cons a names ih =>
      have hne : dir ++ [a] ≠ [] := List.append_ne_nil_of_right_ne_nil _ (List.cons_ne_nil a [])
      have hsplit : dir ++ a :: names = (dir ++ [a]) ++ names := by simp
      rw [hsplit] at hclear ⊢
      rw [Trees.addDirs]
      split
      · rename_i hfree
        refine ih (h.concat hdir hfree) ?_ ?_
        · rw [lookup_concat hne hfree, if_pos rfl]
        · intro q b hq
          rcases List.mem_append.mp hq with hold | hnew
          · exact hclear q b hold
          · cases List.mem_singleton.mp hnew
      · rename_i hfound
        refine ih h ?_ hclear
        obtain ⟨x, hx⟩ := Option.ne_none_iff_exists'.mp hfound
        rw [hx]
        cases x with
        | none => rfl
        | some b => exact absurd (List.prefix_append _ _) (hclear _ b (mem_of_lookup hne hx))

section Grow

variable {t : Tree α β} {p : List α} {b : β}

omit [DecidableEq α] in
theorem Open.clear (h : Open t p) (q : List α) (b : β) (hq : (q, some b) ∈ t) :
    ¬ q <+: [] ++ p.dropLast := by
  rw [List.nil_append]
  exact fun hpre => h.above q b hq (hpre.trans (List.dropLast_prefix p))

theorem Open.lookup_addDirs (h : Open t p) : lookup (addDirs t [] p.dropLast) p = none := by
  rw [lookup_eq_none h.nonempty]
  intro e he hkey
  rcases mem_addDirs he with hold | ⟨-, q, -, hpre, hpath⟩
  · exact h.below e hold (hkey ▸ List.prefix_refl _)
  · -- a directory above `p` is shorter
    have hlength := hpre.length_le
    rw [hpath, List.nil_append] at hkey
    rw [hkey, List.length_dropLast] at hlength
    have hpos := List.length_pos_of_ne_nil h.nonempty
    omega

theorem Open.wellFormed_grow (h : Open t p) (ht : WellFormed t) : WellFormed (grow t p b) := by
  obtain ⟨hdirs, hdir⟩ := ht.addDirs (lookup_root t) h.clear
  have hfree := h.lookup_addDirs
  have hpath := List.dropLast_append_getLast h.nonempty
  rw [grow]
  rw [List.nil_append] at hdir
  rw [← hpath] at hfree ⊢
  rw [hpath] at hfree ⊢
  have hgrown := hdirs.concat (a := p.getLast h.nonempty) (x := some b) hdir (by rwa [hpath])
  rwa [hpath] at hgrown

theorem mem_grow_leaf {q : List α} {b' : β} :
    (q, some b') ∈ grow t p b ↔ (q, some b') ∈ t ∨ q = p ∧ b' = b := by
  rw [grow, List.mem_append, List.mem_singleton, Prod.mk.injEq, Option.some.injEq]
  constructor
  · rintro (hdir | hnew)
    · rcases mem_addDirs hdir with hold | ⟨hnone, -⟩
      · exact .inl hold
      · cases hnone
    · exact .inr hnew
  · rintro (hold | hnew)
    · exact .inl (mem_addDirs_of_mem hold)
    · exact .inr hnew

theorem mem_grow_dir {q : List α} (hq : (q, none) ∈ grow t p b) :
    (q, none) ∈ t ∨ q <+: p ∧ q ≠ p := by
  rcases List.mem_append.mp hq with hdir | hnew
  · rcases mem_addDirs hdir with hold | ⟨-, r, hne, hpre, hpath⟩
    · exact .inl hold
    · rw [List.nil_append] at hpath
      have hkey : q = r := hpath
      rw [hkey]
      refine .inr ⟨hpre.trans (List.dropLast_prefix p), ?_⟩
      rintro rfl
      have hlength := hpre.length_le
      rw [List.length_dropLast] at hlength
      have hnil : r = [] := List.length_eq_zero_iff.mp (by omega)
      exact hne hnil
  · cases List.mem_singleton.mp hnew

end Grow

end ExternalStorage.Library.Trees
