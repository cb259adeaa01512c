import Mathlib.Data.List.Basic

/-!
# Resolving paths through symbolic links

A path is a list of steps that is walked from a directory of a tree: a name goes down, `..`
goes up from the place reached, and a name that is a link is replaced by the steps of its
target.  The number of links that one walk may follow is bounded, as in every system.  A
walk leaves the tree when it takes `..` at the root or names an absolute place.

The main result says that links can be judged one at a time: no link leads outside exactly
when no link's own target takes a step outside.
-/

namespace ExternalStorage.Library.Resolution

variable {α : Type*}

inductive Step (α : Type*) where
  | name (a : α)
  | up
  /-- An absolute path starts outside of the tree. -/
  | root
  deriving DecidableEq, Repr

inductive Place (α : Type*) where
  | dir
  | leaf
  | link (target : List (Step α))
  deriving DecidableEq, Repr

inductive Outcome (α : Type*) where
  /-- A directory, with the number of links that may still be followed. -/
  | at (links : Nat) (dir : List α)
  /-- At a leaf, or without finding anything. -/
  | ended
  | escaped
  deriving DecidableEq, Repr

/-- The walk with `links` links left; `follow` goes on behind one of them. -/
def walkWith (look : List α → Option (Place α)) (links : Nat)
    (follow : List α → List (Step α) → Outcome α) : List α → List (Step α) → Outcome α
  | dir, [] => .at links dir
  | dir, .up :: steps =>
      if dir = [] then .escaped else walkWith look links follow dir.dropLast steps
  | _, .root :: _ => .escaped
  | dir, .name a :: steps =>
      match look (dir ++ [a]) with
      | none => .ended
      | some .leaf => .ended
      | some .dir => walkWith look links follow (dir ++ [a]) steps
      | some (.link target) => follow dir (target ++ steps)

def walk (look : List α → Option (Place α)) : Nat → List α → List (Step α) → Outcome α
  | 0 => walkWith look 0 fun _ _ => .ended
  | links + 1 => walkWith look (links + 1) (walk look links)

variable {look : List α → Option (Place α)} {n m : Nat} {p q : List α} {a : α}
  {steps rest target : List (Step α)}

@[simp] theorem walk_nil : walk look n p [] = .at n p := by
  cases n <;> rfl

theorem walk_up : walk look n p (.up :: steps) =
    if p = [] then .escaped else walk look n p.dropLast steps := by
  cases n <;> rfl

@[simp] theorem walk_root : walk look n p (.root :: steps) = .escaped := by
  cases n <;> rfl

theorem walk_none (h : look (p ++ [a]) = none) : walk look n p (.name a :: steps) = .ended := by
  cases n <;> simp only [walk, walkWith, h]

theorem walk_leaf (h : look (p ++ [a]) = some .leaf) :
    walk look n p (.name a :: steps) = .ended := by
  cases n <;> simp only [walk, walkWith, h]

theorem walk_dir (h : look (p ++ [a]) = some .dir) :
    walk look n p (.name a :: steps) = walk look n (p ++ [a]) steps := by
  cases n <;> simp only [walk, walkWith, h]

theorem walk_link_zero (h : look (p ++ [a]) = some (.link target)) :
    walk look 0 p (.name a :: steps) = .ended := by
  simp only [walk, walkWith, h]

theorem walk_link (h : look (p ++ [a]) = some (.link target)) :
    walk look (n + 1) p (.name a :: steps) = walk look n p (target ++ steps) := by
  simp only [walk, walkWith, h]

/-- The induction that walks follow: the rest of the path, and any path once a link is used up. -/
theorem walk_induction {P : Nat → List α → List (Step α) → Prop} (nil : ∀ n p, P n p [])
    (cons : ∀ n p step steps, (∀ q, P n q steps) → (∀ m, m + 1 = n → ∀ q rest, P m q rest) →
      P n p (step :: steps)) (n : Nat) (p : List α) (steps : List (Step α)) : P n p steps := by
  induction n generalizing p steps with
  | zero =>
      induction steps generalizing p with
      | nil => exact nil 0 p
      | cons step steps ih => exact cons 0 p step steps ih (by intro m hm; omega)
  | succ n follow =>
      induction steps generalizing p with
      | nil => exact nil (n + 1) p
      | cons step steps ih =>
          apply cons (n + 1) p step steps ih
          intro m hm q rest
          obtain rfl : m = n := Nat.succ.inj hm
          exact follow q rest

/-- What follows a path is walked from where the path leads. -/
theorem walk_append (n : Nat) (p : List α) (steps rest : List (Step α)) :
    walk look n p (steps ++ rest) =
      match walk look n p steps with
      | .at m q => walk look m q rest
      | .ended => .ended
      | .escaped => .escaped := by
  induction n, p, steps using walk_induction generalizing rest with
  | nil n p => simp
  | cons n p step steps ih follow =>
      cases step with
      | up =>
          rw [List.cons_append, walk_up, walk_up]
          split
          · rfl
          · exact ih _ rest
      | root => simp
      | name a =>
          rw [List.cons_append]
          cases hlook : look (p ++ [a]) with
          | none => rw [walk_none hlook, walk_none hlook]
          | some place =>
              cases place with
              | dir => rw [walk_dir hlook, walk_dir hlook, ih]
              | leaf => rw [walk_leaf hlook, walk_leaf hlook]
              | link target =>
                  cases n with
                  | zero => rw [walk_link_zero hlook, walk_link_zero hlook]
                  | succ n => rw [walk_link hlook, walk_link hlook, ← List.append_assoc, follow n rfl]

theorem walk_append_at (h : walk look n p steps = .at m q) :
    walk look n p (steps ++ rest) = walk look m q rest := by
  rw [walk_append, h]

theorem walk_append_escaped (h : walk look n p (steps ++ rest) = .escaped) :
    walk look n p steps = .escaped ∨
      ∃ m q, walk look n p steps = .at m q ∧ walk look m q rest = .escaped := by
  rw [walk_append] at h
  split at h
  · rename_i m q hat
    exact .inr ⟨m, q, hat, h⟩
  · cases h
  · rename_i hescaped
    exact .inl hescaped

/-- A walk does not gain links. -/
theorem walk_at_le (h : walk look n p steps = .at m q) : m ≤ n := by
  induction n, p, steps using walk_induction with
  | nil n p =>
      rw [walk_nil] at h
      cases h
      exact Nat.le_refl _
  | cons n p step steps ih follow =>
      cases step with
      | up =>
          rw [walk_up] at h
          split at h
          · cases h
          · exact ih _ h
      | root => simp at h
      | name a =>
          cases hlook : look (p ++ [a]) with
          | none => simp [walk_none hlook] at h
          | some place =>
              cases place with
              | dir => exact ih _ (walk_dir hlook ▸ h)
              | leaf => simp [walk_leaf hlook] at h
              | link target =>
                  cases n with
                  | zero => simp [walk_link_zero hlook] at h
                  | succ n => exact Nat.le_succ_of_le (follow n rfl _ _ (walk_link hlook ▸ h))

/-! ## Where a walk leaves the tree -/

def StepsOutside (look : List α → Option (Place α)) (n : Nat) (p : List α)
    (steps : List (Step α)) : Prop :=
  ∃ before step after, steps = before ++ step :: after ∧
    ∃ m q, walk look n p before = .at m q ∧ (step = .root ∨ step = .up ∧ q = [])

theorem StepsOutside.escaped (h : StepsOutside look n p steps) :
    walk look n p steps = .escaped := by
  obtain ⟨before, step, after, rfl, m, q, hat, houtside⟩ := h
  rw [walk_append_at hat]
  rcases houtside with rfl | ⟨rfl, rfl⟩
  · exact walk_root
  · rw [walk_up, if_pos rfl]

theorem StepsOutside.cons {step : Step α}
    (hstep : ∀ rest, walk look n p (step :: rest) = walk look m q rest)
    (h : StepsOutside look m q steps) : StepsOutside look n p (step :: steps) := by
  obtain ⟨before, out, after, rfl, m', q', hat, houtside⟩ := h
  exact ⟨step :: before, out, after, rfl, m', q', (hstep before).trans hat, houtside⟩

/-- A walk that leaves the tree does so by a step of its own path, or follows a link on the
way that leads outside. -/
theorem escaped_cases (h : walk look n p steps = .escaped) :
    StepsOutside look n p steps ∨
      ∃ q a target m, look (q ++ [a]) = some (.link target) ∧ m < n ∧
        walk look m q target = .escaped := by
  induction steps generalizing n p with
  | nil => simp at h
  | cons step steps ih =>
      cases step with
      | up =>
          by_cases hp : p = []
          · subst hp
            exact .inl ⟨[], .up, steps, rfl, n, [], walk_nil, .inr ⟨rfl, rfl⟩⟩
          · have hstep : ∀ rest, walk look n p (.up :: rest) = walk look n p.dropLast rest := by
              intro rest
              rw [walk_up, if_neg hp]
            rw [hstep] at h
            exact (ih h).imp_left (StepsOutside.cons hstep)
      | root => exact .inl ⟨[], .root, steps, rfl, n, p, walk_nil, .inl rfl⟩
      | name a =>
          cases hlook : look (p ++ [a]) with
          | none => simp [walk_none hlook] at h
          | some place =>
              cases place with
              | leaf => simp [walk_leaf hlook] at h
              | dir =>
                  have hstep : ∀ rest,
                      walk look n p (.name a :: rest) = walk look n (p ++ [a]) rest := by
                    intro rest
                    exact walk_dir hlook
                  rw [hstep] at h
                  exact (ih h).imp_left (StepsOutside.cons hstep)
              | link target =>
                  cases n with
                  | zero => simp [walk_link_zero hlook] at h
                  | succ n =>
                      rw [walk_link hlook] at h
                      rcases walk_append_escaped h with hinner | ⟨m, q, hat, hrest⟩
                      · exact .inr ⟨p, a, target, n, hlook, Nat.lt_succ_self n, hinner⟩
                      · have hstep : ∀ rest,
                            walk look (n + 1) p (.name a :: rest) = walk look m q rest := by
                          intro rest
                          rw [walk_link hlook, walk_append_at hat]
                        rcases ih hrest with hown | ⟨q', b, target', m', hlook', hlt, hinner⟩
                        · exact .inl (hown.cons hstep)
                        · have hle := walk_at_le hat
                          exact .inr ⟨q', b, target', m', hlook', by omega, hinner⟩

/-- No link of the tree leads outside, however many links may be followed. -/
def StaysInside (look : List α → Option (Place α)) : Prop :=
  ∀ p a target, look (p ++ [a]) = some (.link target) → ∀ n, walk look n p target ≠ .escaped

/-- Links can be judged one at a time. -/
theorem staysInside_iff : StaysInside look ↔
    ∀ p a target, look (p ++ [a]) = some (.link target) → ∀ n, ¬ StepsOutside look n p target := by
  constructor
  · intro h p a target hlook n houtside
    exact h p a target hlook n houtside.escaped
  · intro h p a target hlook n
    induction n using Nat.strongRecOn generalizing p a target with
    | ind n ih =>
        intro hescaped
        rcases escaped_cases hescaped with hown | ⟨q, b, target', m, hlook', hlt, hinner⟩
        · exact h p a target hlook n hown
        · exact ih m hlt q b target' hlook' hinner

/-! ## Counting levels without looking -/

/-- The level that a path comes to from level `d`, when every name counts for one level. -/
def lexicalDepth : Nat → List (Step α) → Option Nat
  | d, [] => some d
  | d, .name _ :: steps => lexicalDepth (d + 1) steps
  | d + 1, .up :: steps => lexicalDepth d steps
  | 0, .up :: _ => none
  | _, .root :: _ => none

theorem lexicalDepth_append (d : Nat) (steps rest : List (Step α)) :
    lexicalDepth d (steps ++ rest) = (lexicalDepth d steps).bind fun e => lexicalDepth e rest := by
  induction steps generalizing d with
  | nil => rfl
  | cons step steps ih =>
      cases step with
      | name a => exact ih (d + 1)
      | root => cases d <;> rfl
      | up =>
          cases d with
          | zero => rfl
          | succ d => exact ih d

/-- A path that meets no link goes up and down as it is counted. -/
theorem lexicalDepth_of_straight {d e : Nat} (hdepth : lexicalDepth d steps = some e)
    (hwalk : walk look 0 p steps = .at 0 q) : e + p.length = d + q.length := by
  induction steps generalizing p d with
  | nil =>
      cases hdepth
      rw [walk_nil] at hwalk
      cases hwalk
      rfl
  | cons step steps ih =>
      cases step with
      | root => simp at hwalk
      | up =>
          rw [walk_up] at hwalk
          split at hwalk
          · cases hwalk
          · rename_i hp
            cases d with
            | zero => cases hdepth
            | succ d =>
                have hrest := ih hdepth hwalk
                have hpos := List.length_pos_iff.mpr hp
                rw [List.length_dropLast] at hrest
                omega
      | name a =>
          cases hlook : look (p ++ [a]) with
          | none => simp [walk_none hlook] at hwalk
          | some place =>
              cases place with
              | leaf => simp [walk_leaf hlook] at hwalk
              | link target => simp [walk_link_zero hlook] at hwalk
              | dir =>
                  rw [walk_dir hlook] at hwalk
                  have hrest := ih hdepth hwalk
                  rw [List.length_append, List.length_singleton] at hrest
                  omega

/-- The count lets a path take `..` only above level 0. -/
theorem lexicalDepth_up {d : Nat} {before after : List (Step α)}
    (h : (lexicalDepth d (before ++ .up :: after)).isSome = true) :
    ∃ e, lexicalDepth d before = some (e + 1) := by
  rw [lexicalDepth_append] at h
  cases hbefore : lexicalDepth d before with
  | none =>
      rw [hbefore] at h
      cases h
  | some e =>
      rw [hbefore, Option.bind_some] at h
      cases e with
      | zero => cases h
      | succ e => exact ⟨e, rfl⟩

theorem root_notMem_of_lexicalDepth {d : Nat} (h : (lexicalDepth d steps).isSome = true) :
    .root ∉ steps := by
  intro hroot
  obtain ⟨before, after, rfl⟩ := List.append_of_mem hroot
  rw [lexicalDepth_append] at h
  cases hbefore : lexicalDepth d before with
  | none =>
      rw [hbefore] at h
      cases h
  | some e =>
      rw [hbefore] at h
      cases e <;> cases h

end ExternalStorage.Library.Resolution
