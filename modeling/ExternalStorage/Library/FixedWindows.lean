import Mathlib.Algebra.Order.Ring.Int
import Mathlib.Data.List.Count

/-!
# Fixed windows

A limiter that counts the hits of a key in a bucket, lets the first ones through, and starts the
bucket anew with the first hit after its time.  The bucket does not slide, so an interval as long as
a window can meet the end of one and the beginning of the next.
-/

namespace ExternalStorage.Library.FixedWindows

structure Bucket where
  count : Nat
  resetAt : Int
  deriving DecidableEq, Repr

def hit (window now : Int) (bucket : Option Bucket) : Bucket :=
  let bucket := bucket.getD ⟨0, now + window⟩
  let bucket := if bucket.resetAt < now then ⟨0, now + window⟩ else bucket
  { bucket with count := bucket.count + 1 }

def within (times : List Int) (first last : Int) : Nat :=
  times.countP fun t => first ≤ t && t ≤ last

def since (times : List Int) (first : Int) : Nat := times.countP fun t => first ≤ t

section Count

variable {times : List Int} {t first last : Int}

theorem within_concat : within (times ++ [t]) first last =
    within times first last + if first ≤ t ∧ t ≤ last then 1 else 0 := by
  simp [within, List.countP_append, List.countP_singleton]

theorem since_concat : since (times ++ [t]) first =
    since times first + if first ≤ t then 1 else 0 := by
  simp [since, List.countP_append, List.countP_singleton]

theorem since_eq_zero (h : ∀ t ∈ times, t < first) : since times first = 0 := by
  rw [since, List.countP_eq_zero]
  intro t ht
  simpa using h t ht

theorem within_le_since (times : List Int) (first last : Int) :
    within times first last ≤ since times first := by
  refine List.countP_mono_left ?_
  intro t _ h
  exact (Bool.and_eq_true_iff.mp h).1

theorem since_anti {first' : Int} (h : first ≤ first') :
    since times first' ≤ since times first := by
  refine List.countP_mono_left ?_
  intro t _ ht
  simp only [decide_eq_true_eq] at ht ⊢
  exact h.trans ht

/-- An interval is cut at a time. -/
theorem within_le_cut (times : List Int) (first last cut : Int) :
    within times first last ≤ within times first (cut - 1) + since times cut := by
  induction times with
  | nil => simp [within]
  | cons t times ih =>
      simp only [within, since, List.countP_cons, Bool.and_eq_true, decide_eq_true_eq] at ih ⊢
      split <;> split <;> split <;> omega

/-- A time counts from itself on, and not from the next. -/
theorem since_succ_lt (h : first ∈ times) : since times (first + 1) + 1 ≤ since times first := by
  induction times with
  | nil => cases h
  | cons t times ih =>
      simp only [since, List.countP_cons, decide_eq_true_eq] at ih ⊢
      rcases List.mem_cons.mp h with rfl | h
      · have hanti : since times (first + 1) ≤ since times first := since_anti (by omega)
        unfold since at hanti
        split <;> split <;> omega
      · have := ih h
        split <;> split <;> omega

end Count

/-! ## One key -/

/-- A bucket with the hits of its key and those that were let through. -/
structure Track where
  bucket : Option Bucket := none
  hits : List Int := []
  passed : List Int := []
  deriving DecidableEq

/-- A hit, let through if the count has not gone over the limit. -/
def Track.hit (limit : Nat) (window now : Int) (k : Track) : Track where
  bucket := some (FixedWindows.hit window now k.bucket)
  hits := k.hits ++ [now]
  passed := if (FixedWindows.hit window now k.bucket).count ≤ limit then k.passed ++ [now]
    else k.passed

/-- What a bucket knows of the hits of its key, `start` being the one that opened it. -/
structure InWindow (limit : Nat) (window start : Int) (count : Nat) (hits passed : List Int) :
    Prop where
  counted : count = since hits start
  before : ∀ t ∈ hits, t ≤ start + window
  hits : ∀ t ∈ passed, t ∈ hits
  opened : start ∈ passed
  /-- Those of this window. -/
  current : since passed start ≤ count ∧ since passed start ≤ limit
  /-- An interval that reaches this window has missed the first hit of the last one. -/
  last : ∀ first, start ≤ first + window → within passed first (start - 1) + 1 ≤ limit
  spread : ∀ first, within passed first (first + window) + 1 ≤ 2 * limit

def Track.Inv (limit : Nat) (window : Int) (k : Track) : Prop :=
  match k.bucket with
  | none => k.hits = [] ∧ k.passed = []
  | some b => InWindow limit window (b.resetAt - window) b.count k.hits k.passed

section Key

variable {limit : Nat} {window now start : Int} {count : Nat} {hits passed : List Int}

/-- At most the last hits of one window but its first, and those of the next. -/
theorem spread_of_windows (hopened : start ∈ passed) (hcurrent : since passed start ≤ limit)
    (hlast : ∀ first, start ≤ first + window → within passed first (start - 1) + 1 ≤ limit)
    {first : Int} (hreaches : start ≤ first + window) :
    within passed first (first + window) + 1 ≤ 2 * limit := by
  by_cases hfirst : first ≤ start
  · have hcut := within_le_cut passed first (first + window) start
    have := hlast first hreaches
    omega
  · have hwithin := within_le_since passed first (first + window)
    have hanti : since passed first ≤ since passed (start + 1) := since_anti (by omega)
    have := since_succ_lt hopened
    omega

theorem subset_concat (h : ∀ t ∈ passed, t ∈ hits) :
    ∀ t ∈ passed ++ [now], t ∈ hits ++ [now] := by
  intro t ht
  rcases List.mem_append.mp ht with hold | hnew
  · exact List.mem_append_left _ (h t hold)
  · exact List.mem_append_right _ hnew

theorem le_concat {bound : Int} (h : ∀ t ∈ hits, t ≤ bound) (hnow : now ≤ bound) :
    ∀ t ∈ hits ++ [now], t ≤ bound := by
  intro t ht
  rcases List.mem_append.mp ht with hold | hnew
  · exact h t hold
  · rw [List.mem_singleton.mp hnew]
    exact hnow

/-- The first hit of a key. -/
theorem inWindow_first (hlimit : 1 ≤ limit) (hwindow : 0 ≤ window) :
    InWindow limit window now 1 [now] [now] := by
  have hlast : ∀ first, now ≤ first + window → within [now] first (now - 1) + 1 ≤ limit := by
    intro first _
    simp only [within, List.countP_singleton, Bool.and_eq_true, decide_eq_true_eq]
    rw [if_neg (by omega)]
    omega
  have hcurrent : since [now] now = 1 := by simp [since]
  refine ⟨hcurrent.symm, ?_, fun t ht => ht, List.mem_singleton_self now, by omega, hlast, ?_⟩
  · intro t ht
    rw [List.mem_singleton.mp ht]
    omega
  · intro first
    have hone : within [now] first (first + window) ≤ 1 := List.countP_le_length
    omega

theorem InWindow.reopen (hlimit : 1 ≤ limit) (hwindow : 0 ≤ window)
    (h : InWindow limit window start count hits passed) (hnow : start + window < now) :
    InWindow limit window now 1 (hits ++ [now]) (passed ++ [now]) := by
  have hold : ∀ t ∈ hits, t < now := fun t ht => (h.before t ht).trans_lt hnow
  have hpassed : since passed now = 0 := since_eq_zero fun t ht => hold t (h.hits t ht)
  have hcurrent : since (passed ++ [now]) now = 1 := by rw [since_concat, hpassed, if_pos le_rfl]
  have hopened : now ∈ passed ++ [now] := List.mem_append_right _ (List.mem_singleton_self now)
  have hlast : ∀ first, now ≤ first + window →
      within (passed ++ [now]) first (now - 1) + 1 ≤ limit := by
    intro first hfirst
    rw [within_concat, if_neg (by omega)]
    have hwithin := within_le_since passed first (now - 1)
    have hanti : since passed first ≤ since passed (start + 1) := since_anti (by omega)
    have hstart := since_succ_lt h.opened
    have := h.current.2
    omega
  refine ⟨?_, ?_, subset_concat h.hits, hopened, by omega, hlast, ?_⟩
  · rw [since_concat, since_eq_zero hold, if_pos le_rfl]
  · refine le_concat (fun t ht => ?_) (by omega)
    have := hold t ht
    omega
  · intro first
    by_cases hreaches : now ≤ first + window
    · exact spread_of_windows hopened (by omega) hlast hreaches
    · rw [within_concat, if_neg (by omega)]
      exact h.spread first

theorem InWindow.again (h : InWindow limit window start count hits passed) (hstart : start ≤ now)
    (hnow : now ≤ start + window) :
    InWindow limit window start (count + 1) (hits ++ [now])
      (if count + 1 ≤ limit then passed ++ [now] else passed) := by
  have hcounted : count + 1 = since (hits ++ [now]) start := by
    rw [since_concat, if_pos hstart, h.counted]
  have hbefore := le_concat h.before hnow
  obtain ⟨hcount, hcurrent⟩ := h.current
  by_cases hpasses : count + 1 ≤ limit
  · rw [if_pos hpasses]
    have hopened : start ∈ passed ++ [now] := List.mem_append_left _ h.opened
    have hsince : since (passed ++ [now]) start = since passed start + 1 := by
      rw [since_concat, if_pos hstart]
    have hlast : ∀ first, start ≤ first + window →
        within (passed ++ [now]) first (start - 1) + 1 ≤ limit := by
      intro first hfirst
      rw [within_concat, if_neg (by omega)]
      exact h.last first hfirst
    refine ⟨hcounted, hbefore, subset_concat h.hits, hopened, by omega, hlast, ?_⟩
    intro first
    by_cases hreaches : start ≤ first + window
    · exact spread_of_windows hopened (by omega) hlast hreaches
    · rw [within_concat, if_neg (by omega)]
      exact h.spread first
  · rw [if_neg hpasses]
    refine ⟨hcounted, hbefore, ?_, h.opened, ⟨by omega, hcurrent⟩, h.last, h.spread⟩
    exact fun t ht => List.mem_append_left _ (h.hits t ht)

end Key

/-! ## Every hit -/

section Track

variable {limit : Nat} {window now : Int} {k : Track}

theorem Track.inv_empty : Track.Inv limit window {} := ⟨rfl, rfl⟩

/-- Hits at times that do not go back keep the invariant. -/
theorem Track.Inv.hit (hlimit : 1 ≤ limit) (hwindow : 0 ≤ window) (h : k.Inv limit window)
    (hnow : ∀ t ∈ k.hits, t ≤ now) : (k.hit limit window now).Inv limit window := by
  obtain ⟨bucket, hits, passed⟩ := k
  cases bucket with
  | none =>
      obtain ⟨rfl, rfl⟩ := h
      simp only [Track.Inv, Track.hit, FixedWindows.hit, Option.getD_none, List.nil_append]
      rw [if_neg (by omega), if_pos hlimit, Int.add_sub_cancel]
      exact inWindow_first hlimit hwindow
  | some b =>
      have h : InWindow limit window (b.resetAt - window) b.count hits passed := h
      simp only [Track.Inv, Track.hit, FixedWindows.hit, Option.getD_some]
      by_cases hreset : b.resetAt < now
      · rw [if_pos hreset, if_pos (by simpa using hlimit), Int.add_sub_cancel]
        exact h.reopen hlimit hwindow (by omega)
      · rw [if_neg hreset]
        have hstart := hnow _ (h.hits _ h.opened)
        exact h.again hstart (by omega)

/-- Two windows meet an interval as long as one, and the first of them without its first hit. -/
theorem Track.Inv.spread (hlimit : 1 ≤ limit) (h : k.Inv limit window) (first : Int) :
    within k.passed first (first + window) + 1 ≤ 2 * limit := by
  unfold Track.Inv at h
  split at h
  · rw [h.2]
    simp only [within, List.countP_nil]
    omega
  · exact h.spread first

/-- A hit is refused only after as many as the limit in the time of a window. -/
theorem Track.Inv.refused (hlimit : 1 ≤ limit) (h : k.Inv limit window)
    (hrefused : limit < (FixedWindows.hit window now k.bucket).count) :
    limit ≤ since k.hits (now - window) := by
  unfold Track.Inv at h
  split at h
  · rename_i hnone
    simp only [FixedWindows.hit, hnone, Option.getD_none] at hrefused
    split at hrefused
    all_goals
      simp only at hrefused
      omega
  · rename_i b hsome
    simp only [FixedWindows.hit, hsome, Option.getD_some] at hrefused
    split at hrefused
    · simp only at hrefused
      omega
    · have hanti : since k.hits (b.resetAt - window) ≤ since k.hits (now - window) :=
        since_anti (by omega)
      have := h.counted
      omega

end Track

end ExternalStorage.Library.FixedWindows
