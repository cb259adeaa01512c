import ExternalStorage.Library.Sorting
import ExternalStorage.Model.Manifests
import Mathlib.Data.Multiset.Defs
import Mathlib.Data.String.Basic

/-!
# The snapshot matcher

The comparison of a scan with the objects of a snapshot sorts both sides by their paths alone,
and the sort promises nothing about equal paths.
-/

namespace ExternalStorage.Snapshot

open ExternalStorage.Model Library.Sorting

/-- A sort of the triples by their paths. -/
abbrev PathSort := SortBy (Prod.fst : String × String × Int → String)

/-- `scan_matches_snapshot_objects`, whichever way the sort turns equal paths. -/
def scanMatchesUnder (s : PathSort) (files : List FileEntry)
    (expected : List (String × String × Int)) : Bool :=
  expected.length = files.length &&
    ((s.sort expected).zip (s.sort (files.map FileEntry.identity))).all fun p => p.1 = p.2

theorem scanMatchesUnder_insertion (files : List FileEntry)
    (expected : List (String × String × Int)) :
    scanMatchesUnder (SortBy.insertion _) files expected =
      scanMatchesSnapshotObjects files expected := rfl

theorem zip_all_eq_iff {α : Type} [DecidableEq α] {xs ys : List α} (hlen : xs.length = ys.length) :
    ((xs.zip ys).all fun p => decide (p.1 = p.2)) = true ↔ xs = ys := by
  induction xs generalizing ys with
  | nil =>
      obtain rfl := List.length_eq_zero_iff.mp hlen.symm
      exact iff_of_true rfl rfl
  | cons x xs ih =>
      cases ys with
      | nil => cases hlen
      | cons y ys =>
          rw [List.zip_cons_cons, List.all_cons, Bool.and_eq_true, decide_eq_true_eq,
            ih (Nat.succ.inj hlen), List.cons.injEq]

theorem scanMatchesUnder_iff {s : PathSort} {files : List FileEntry}
    {expected : List (String × String × Int)} :
    scanMatchesUnder s files expected = true ↔ expected.length = files.length ∧
      s.sort expected = s.sort (files.map FileEntry.identity) := by
  rw [scanMatchesUnder, Bool.and_eq_true, decide_eq_true_eq]
  apply and_congr_right
  intro hlen
  apply zip_all_eq_iff
  calc (s.sort expected).length = expected.length := (s.perm expected).length_eq
    _ = (files.map FileEntry.identity).length := by rw [List.length_map, hlen]
    _ = (s.sort (files.map FileEntry.identity)).length := (s.perm _).length_eq.symm

/-- Without anything known of the paths, a match leaves both sides with the same triples. -/
theorem perm_of_scanMatchesUnder {s : PathSort} {files : List FileEntry}
    {expected : List (String × String × Int)} (h : scanMatchesUnder s files expected = true) :
    expected.Perm (files.map FileEntry.identity) := by
  have hsort := (scanMatchesUnder_iff.mp h).2
  exact (s.perm expected).symm.trans (hsort ▸ s.perm _)

theorem mem_of_scanMatches {files : List FileEntry} {expected : List (String × String × Int)}
    (h : scanMatchesSnapshotObjects files expected = true) (t : String × String × Int) :
    t ∈ expected ↔ t ∈ files.map FileEntry.identity := by
  rw [← scanMatchesUnder_insertion] at h
  exact (perm_of_scanMatchesUnder h).mem_iff

def FileEntry.triple (f : FileEntry) : String × String × Int := (f.path, f.sha256, f.size)

theorem identity_of_fits {files : List FileEntry} (hsizes : ∀ f ∈ files, f.size < 2 ^ 63) :
    files.map FileEntry.identity = files.map FileEntry.triple := by
  apply List.map_congr_left
  intro f hf
  rw [FileEntry.identity, FileEntry.triple, asI64_of_fits (hsizes f hf)]

/-- The matcher answers `true` exactly if the scan has the expected triples, each as often as
expected, however the sort treats equal paths.  Sizes are compared as the column holds them,
which is as they are for every length that a file can have. -/
theorem scan_match_exact (s : PathSort) (files : List FileEntry)
    (expected : List (String × String × Int)) (hpaths : (expected.map Prod.fst).Nodup) :
    scanMatchesUnder s files expected = scanMatchesSnapshotObjects files expected ∧
      (scanMatchesSnapshotObjects files expected = true ↔
        (files.map FileEntry.identity : Multiset (String × String × Int)) = expected) ∧
      ((∀ f ∈ files, f.size < 2 ^ 63) → (scanMatchesSnapshotObjects files expected = true ↔
        (files.map FileEntry.triple : Multiset (String × String × Int)) = expected)) := by
  have hexact : ∀ t : PathSort, scanMatchesUnder t files expected = true ↔
      expected.Perm (files.map FileEntry.identity) := by
    intro t
    constructor
    · exact perm_of_scanMatchesUnder
    · intro hperm
      refine scanMatchesUnder_iff.mpr ⟨?_, (t.sort_eq_iff t hpaths).mpr hperm⟩
      rw [hperm.length_eq, List.length_map]
  have hmatch : scanMatchesSnapshotObjects files expected = true ↔
      (files.map FileEntry.identity : Multiset (String × String × Int)) = expected := by
    rw [← scanMatchesUnder_insertion, hexact, Multiset.coe_eq_coe]
    exact List.perm_comm
  refine ⟨?_, hmatch, ?_⟩
  · rw [← scanMatchesUnder_insertion, Bool.eq_iff_iff, hexact, hexact]
  · intro hsizes
    rw [hmatch, identity_of_fits hsizes]

def scannedFile (path sha256 : String) (size ino : Nat) : FileEntry where
  path := path
  sha256 := sha256
  size := size
  allocatedBytes := 4096
  dev := 2049
  ino := ino
  nlink := 1
  mode := 0o100644
  duplicateOf := none
  symlinkTarget := none

/-- Two files in another order than their rows match; a scan that repeats a path does not. -/
theorem scan_match_exact_reordered :
    scanMatchesSnapshotObjects
        [scannedFile "init.yml" "4e1f" 24 12, scannedFile "data.zip" "9c0a" 512 11]
        [("data.zip", "9c0a", 512), ("init.yml", "4e1f", 24)] = true ∧
      scanMatchesSnapshotObjects
        [scannedFile "data.zip" "9c0a" 512 11, scannedFile "data.zip" "9c0a" 512 11]
        [("data.zip", "9c0a", 512), ("init.yml", "4e1f", 24)] ≠ true := by
  constructor
  · exact (scan_match_exact (SortBy.insertion _) _ _ (by decide)).2.1.mpr (by decide)
  · intro h
    have hsizes := (scan_match_exact (SortBy.insertion _)
      [scannedFile "data.zip" "9c0a" 512 11, scannedFile "data.zip" "9c0a" 512 11]
      [("data.zip", "9c0a", 512), ("init.yml", "4e1f", 24)] (by decide)).2.2 (by decide)
    exact absurd (hsizes.mp h) (by decide)

end ExternalStorage.Snapshot
