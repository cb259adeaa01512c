import ExternalStorage.Model.Manifests

/-!
# Untrusted manifests

`validate_manifest` reads a manifest back from the object store.  Here it is with what the
compiled program does on any strings and integers: the slice of a hash may panic, and the
sum of the sizes wraps.
-/

namespace ExternalStorage.Restore

open ExternalStorage.Model

variable {Bytes : Type} {c : Contents Bytes} {schemaVersion : Nat}

/-! ## `validate_manifest`, where `none` is a panic -/

def validateManifestFile? (c : Contents Bytes) (schemaVersion : Nat) (pathsSeen : List String)
    (f : ManifestFile) : Option (Except AppError Unit) :=
  match validateRelativePath f.path with
  | .error e => some (.error e)
  | .ok _ =>
      if f.path ∈ pathsSeen then
        some (.error (.manifestIntegrity s!"duplicate path {f.path}"))
      else
        (objectKeyForSha256? f.sha256).map fun key => do
          refuseIf (f.objectKey ≠ key) (.manifestIntegrity s!"object key mismatch for {f.path}")
          match f.symlinkTarget with
          | none => .ok ()
          | some target => do
              refuseIf (schemaVersion < 3 ∨ f.duplicateOf.isSome)
                (.manifestIntegrity s!"invalid symlink metadata for {f.path}")
              validateSymlinkTarget f.path target
              refuseIf (f.sha256 ≠ c.sha256Bytes (c.textBytes target) ∨
                  f.size ≠ c.len (c.textBytes target))
                (.manifestIntegrity s!"symlink metadata mismatch for {f.path}")

/-- The loop over the files, with the sum `logical`. -/
def validateManifestFiles? (c : Contents Bytes) (schemaVersion : Nat) :
    List String → Nat → List ManifestFile → Option (Except AppError Nat)
  | _, logical, [] => some (.ok logical)
  | pathsSeen, logical, f :: fs =>
      match validateManifestFile? c schemaVersion pathsSeen f with
      | none => none
      | some (.error e) => some (.error e)
      | some (.ok _) =>
          validateManifestFiles? c schemaVersion (f.path :: pathsSeen)
            (if f.duplicateOf.isNone then (logical + f.size) % 2 ^ 64 else logical) fs

def validateCounts (m : Manifest) (logical : Nat) : Except AppError Unit := do
  refuseIf (m.fileCount ≠ m.files.length ∨ m.totalBytes ≠ logical)
    (.manifestIntegrity "manifest counts do not match file list")
  validateCanonical m

def validateManifest? (c : Contents Bytes) (m : Manifest) (problemId : String) (generation : Int) :
    Option (Except AppError Unit) :=
  if m.schemaVersion = 0 ∨ m.schemaVersion > 3 then
    some (.error (.manifestIntegrity s!"unsupported schema_version {m.schemaVersion}"))
  else if m.problemId ≠ problemId ∨ m.generation ≠ generation then
    some (.error (.manifestIntegrity
      (s!"manifest identity mismatch: {m.problemId}:{m.generation} " ++
        s!"expected {problemId}:{generation}")))
  else
    (validateManifestFiles? c m.schemaVersion [] 0 m.files).map fun checked =>
      checked >>= validateCounts m

/-! ## Soundness and its condition -/

/-- The sizes of the entries without `duplicate_of`, summed without wrapping. -/
def totalSize (files : List ManifestFile) : Nat :=
  ((files.filter fun f => f.duplicateOf.isNone).map ManifestFile.size).sum

/-- Where the entries lie below the staging directory: repeated slashes and inner dots do not
count. -/
def locations (files : List ManifestFile) : List (List String) :=
  files.map fun f => pathNames f.path

structure ManifestSound (m : Manifest) : Prop where
  total : m.totalBytes = totalSize m.files
  count : m.fileCount = m.files.length
  keys : ∀ f ∈ m.files, objectKeyForSha256? f.sha256 = some f.objectKey
  distinct : (locations m.files).Nodup

structure FileAccepted (c : Contents Bytes) (schemaVersion : Nat) (f : ManifestFile) : Prop where
  path : validateRelativePath f.path = .ok ()
  key : objectKeyForSha256? f.sha256 = some f.objectKey
  symlink : ∀ target, f.symlinkTarget = some target → 3 ≤ schemaVersion ∧ f.duplicateOf = none ∧
    validateSymlinkTarget f.path target = .ok () ∧
    f.sha256 = c.sha256Bytes (c.textBytes target) ∧ f.size = c.len (c.textBytes target)

/-- What is asked of a manifest before its files are looked at. -/
structure HeaderAccepted (m : Manifest) (problemId : String) (generation : Int) : Prop where
  schema : 1 ≤ m.schemaVersion ∧ m.schemaVersion ≤ 3
  identity : m.problemId = problemId ∧ m.generation = generation

/-- The manifest passes the checks, where the sum of its sizes wraps. -/
structure ManifestAccepted (c : Contents Bytes) (m : Manifest) (problemId : String)
    (generation : Int) : Prop where
  header : HeaderAccepted m problemId generation
  files : ∀ f ∈ m.files, FileAccepted c m.schemaVersion f
  paths : (m.files.map ManifestFile.path).Nodup
  count : m.fileCount = m.files.length
  total : m.totalBytes = totalSize m.files % 2 ^ 64
  canonical : validateCanonical m = .ok ()

def ReachesUnsliceable (c : Contents Bytes) (schemaVersion : Nat) (pathsSeen : List String)
    (files : List ManifestFile) : Prop :=
  ∃ before f after, files = before ++ f :: after ∧
    (∀ g ∈ before, FileAccepted c schemaVersion g) ∧
    ((before ++ [f]).map ManifestFile.path).Nodup ∧ (∀ g ∈ before ++ [f], g.path ∉ pathsSeen) ∧
    validateRelativePath f.path = .ok () ∧ firstTwo? f.sha256 = none

/-- Every hash that is sliced has two first bytes, and a manifest that passes the checks
keeps its sum below `2 ^ 64` and its locations apart. -/
structure WellMeasured (c : Contents Bytes) (m : Manifest) (problemId : String)
    (generation : Int) : Prop where
  sliceable : HeaderAccepted m problemId generation →
    ¬ ReachesUnsliceable c m.schemaVersion [] m.files
  sizes : ManifestAccepted c m problemId generation → totalSize m.files < 2 ^ 64
  apart : ManifestAccepted c m problemId generation → (locations m.files).Nodup

/-! ## One file -/

theorem objectKeyForSha256?_eq_none {sha256 : String} :
    objectKeyForSha256? sha256 = none ↔ firstTwo? sha256 = none :=
  Option.map_eq_none_iff

theorem validateManifestFile?_eq_ok {pathsSeen : List String} {f : ManifestFile} :
    validateManifestFile? c schemaVersion pathsSeen f = some (.ok ()) ↔
      FileAccepted c schemaVersion f ∧ f.path ∉ pathsSeen := by
  unfold validateManifestFile?
  cases hpath : validateRelativePath f.path with
  | error e =>
      constructor
      · intro h
        cases h
      · rintro ⟨hok, -⟩
        exact absurd (hpath.symm.trans hok.path) (by simp)
  | ok _ =>
      by_cases hseen : f.path ∈ pathsSeen
      · rw [if_pos hseen]
        constructor
        · intro h
          cases h
        · rintro ⟨-, hnew⟩
          exact absurd hseen hnew
      · rw [if_neg hseen, Option.map_eq_some_iff]
        simp only [check_eq_ok, refuseIf_eq_ok, not_not]
        constructor
        · rintro ⟨key, hkey, rfl, htarget⟩
          refine ⟨⟨hpath, hkey, ?_⟩, hseen⟩
          intro target hlink
          rw [hlink] at htarget
          simpa only [check_eq_ok, refuseIf_eq_ok, not_or, not_not, not_lt, Bool.not_eq_true,
            Option.isSome_eq_false_iff, Option.isNone_iff_eq_none, and_assoc] using htarget
        · rintro ⟨hok, -⟩
          refine ⟨f.objectKey, hok.key, rfl, ?_⟩
          cases hlink : f.symlinkTarget with
          | none => rfl
          | some target =>
              simpa only [check_eq_ok, refuseIf_eq_ok, not_or, not_not, not_lt,
                Bool.not_eq_true, Option.isSome_eq_false_iff, Option.isNone_iff_eq_none,
                and_assoc] using hok.symlink target hlink

theorem validateManifestFile?_eq_none {pathsSeen : List String} {f : ManifestFile} :
    validateManifestFile? c schemaVersion pathsSeen f = none ↔
      validateRelativePath f.path = .ok () ∧ f.path ∉ pathsSeen ∧ firstTwo? f.sha256 = none := by
  unfold validateManifestFile?
  cases hpath : validateRelativePath f.path with
  | error e => simp
  | ok _ =>
      by_cases hseen : f.path ∈ pathsSeen
      · rw [if_pos hseen]
        simp [hseen]
      · rw [if_neg hseen, Option.map_eq_none_iff, objectKeyForSha256?_eq_none]
        simp [hseen]

/-! ## The loop -/

theorem totalSize_cons (f : ManifestFile) (fs : List ManifestFile) :
    totalSize (f :: fs) = (if f.duplicateOf.isNone then f.size else 0) + totalSize fs := by
  unfold totalSize
  cases hdup : f.duplicateOf.isNone with
  | true => simp [hdup]
  | false => simp [hdup]

theorem wrapped_lt (f : ManifestFile) {logical : Nat} (hlogical : logical < 2 ^ 64) :
    (if f.duplicateOf.isNone then (logical + f.size) % 2 ^ 64 else logical) < 2 ^ 64 := by
  split
  · exact Nat.mod_lt _ (by decide)
  · exact hlogical

theorem wrapped_add (f : ManifestFile) (fs : List ManifestFile) (logical : Nat) :
    ((if f.duplicateOf.isNone then (logical + f.size) % 2 ^ 64 else logical) + totalSize fs) %
      2 ^ 64 = (logical + totalSize (f :: fs)) % 2 ^ 64 := by
  rw [totalSize_cons]
  split
  · rw [Nat.mod_add_mod, Nat.add_assoc]
  · rw [Nat.zero_add]

theorem validateManifestFiles?_eq_ok {pathsSeen : List String} {logical total : Nat}
    {files : List ManifestFile} (hlogical : logical < 2 ^ 64) :
    validateManifestFiles? c schemaVersion pathsSeen logical files = some (.ok total) ↔
      (∀ f ∈ files, FileAccepted c schemaVersion f) ∧ (files.map ManifestFile.path).Nodup ∧
        (∀ f ∈ files, f.path ∉ pathsSeen) ∧ total = (logical + totalSize files) % 2 ^ 64 := by
  induction files generalizing pathsSeen logical with
  | nil =>
      simp only [validateManifestFiles?, totalSize, List.filter_nil, List.map_nil, List.sum_nil,
        Nat.add_zero, Nat.mod_eq_of_lt hlogical, Option.some.injEq, Except.ok.injEq]
      simp [eq_comm]
  | cons f fs ih =>
      have hstep : validateManifestFiles? c schemaVersion pathsSeen logical (f :: fs) =
            some (.ok total) ↔
          validateManifestFile? c schemaVersion pathsSeen f = some (.ok ()) ∧
            validateManifestFiles? c schemaVersion (f.path :: pathsSeen)
              (if f.duplicateOf.isNone then (logical + f.size) % 2 ^ 64 else logical) fs =
                some (.ok total) := by
        rw [validateManifestFiles?]
        cases validateManifestFile? c schemaVersion pathsSeen f with
        | none => simp
        | some r =>
            cases r with
            | error e => simp
            | ok u => simp
      rw [hstep, validateManifestFile?_eq_ok, ih (wrapped_lt f hlogical), wrapped_add]
      simp only [List.forall_mem_cons, List.map_cons, List.nodup_cons, List.mem_map, not_exists,
        not_and]
      simp only [List.mem_cons, not_or]
      constructor
      · rintro ⟨⟨hok, hnew⟩, hoks, hnodup, hrest, htotal⟩
        exact ⟨⟨hok, hoks⟩, ⟨fun g hg heq => (hrest g hg).1 heq, hnodup⟩,
          ⟨hnew, fun g hg => (hrest g hg).2⟩, htotal⟩
      · rintro ⟨⟨hok, hoks⟩, ⟨hother, hnodup⟩, ⟨hnew, hrest⟩, htotal⟩
        exact ⟨⟨hok, hnew⟩, hoks, hnodup, fun g hg => ⟨hother g hg, hrest g hg⟩, htotal⟩

theorem validateManifestFiles?_eq_none {pathsSeen : List String} {logical : Nat}
    {files : List ManifestFile} :
    validateManifestFiles? c schemaVersion pathsSeen logical files = none ↔
      ReachesUnsliceable c schemaVersion pathsSeen files := by
  induction files generalizing pathsSeen logical with
  | nil =>
      constructor
      · intro h
        cases h
      · rintro ⟨before, f, after, hfiles, -⟩
        cases before <;> cases hfiles
  | cons f fs ih =>
      rw [validateManifestFiles?]
      constructor
      · intro h
        cases hfile : validateManifestFile? c schemaVersion pathsSeen f with
        | none =>
            obtain ⟨hpath, hnew, hslice⟩ := validateManifestFile?_eq_none.mp hfile
            refine ⟨[], f, fs, rfl, ?_, List.nodup_singleton _, ?_, hpath, hslice⟩
            · intro g hg
              cases hg
            · intro g hg
              rw [List.mem_singleton.mp hg]
              exact hnew
        | some r =>
            cases r with
            | error e =>
                rw [hfile] at h
                cases h
            | ok u =>
                rw [hfile] at h
                obtain ⟨hok, hnew⟩ := validateManifestFile?_eq_ok.mp hfile
                obtain ⟨before, g, after, rfl, hbefore, hnodup, hseen, hpath, hslice⟩ := ih.mp h
                refine ⟨f :: before, g, after, rfl, ?_, ?_, ?_, hpath, hslice⟩
                · exact List.forall_mem_cons.mpr ⟨hok, hbefore⟩
                · rw [List.cons_append, List.map_cons, List.nodup_cons]
                  refine ⟨?_, hnodup⟩
                  intro hmem
                  obtain ⟨g', hg', hsame⟩ := List.mem_map.mp hmem
                  exact hseen g' hg' (hsame ▸ List.mem_cons_self)
                · refine List.forall_mem_cons.mpr ⟨hnew, ?_⟩
                  intro g' hg' hmem
                  exact hseen g' hg' (List.mem_cons_of_mem _ hmem)
      · rintro ⟨before, g, after, hfiles, hbefore, hnodup, hseen, hpath, hslice⟩
        cases before with
        | nil =>
            obtain ⟨rfl, rfl⟩ := List.cons.inj hfiles
            have hfile : validateManifestFile? c schemaVersion pathsSeen f = none :=
              validateManifestFile?_eq_none.mpr
                ⟨hpath, hseen f (List.mem_singleton_self f), hslice⟩
            rw [hfile]
        | cons f' before =>
            obtain ⟨rfl, rfl⟩ := List.cons.inj hfiles
            have hfile := validateManifestFile?_eq_ok.mpr
              ⟨hbefore f List.mem_cons_self, hseen f List.mem_cons_self⟩
            rw [hfile]
            rw [List.cons_append, List.map_cons, List.nodup_cons] at hnodup
            refine ih.mpr ⟨before, g, after, rfl, ?_, hnodup.2, ?_, hpath, hslice⟩
            · intro g' hg'
              exact hbefore g' (List.mem_cons_of_mem _ hg')
            · intro g' hg' hmem
              rcases List.mem_cons.mp hmem with hsame | hmem
              · exact hnodup.1 (List.mem_map.mpr ⟨g', hg', hsame⟩)
              · exact hseen g' (List.mem_cons_of_mem _ hg') hmem

/-! ## The manifest -/

variable {m : Manifest} {problemId : String} {generation : Int}

theorem validateManifest?_header (h : HeaderAccepted m problemId generation) :
    validateManifest? c m problemId generation =
      (validateManifestFiles? c m.schemaVersion [] 0 m.files).map fun checked =>
        checked >>= validateCounts m := by
  obtain ⟨hschema, hidentity⟩ := h
  rw [validateManifest?, if_neg (by omega), if_neg (by simp [hidentity])]

theorem validateManifest?_no_header (h : ¬ HeaderAccepted m problemId generation) :
    ∃ e, validateManifest? c m problemId generation = some (.error e) := by
  unfold validateManifest?
  split
  · exact ⟨_, rfl⟩
  · rename_i hschema
    split
    · exact ⟨_, rfl⟩
    · rename_i hidentity
      rw [not_or, not_not, not_not] at hidentity
      exact absurd ⟨by omega, hidentity⟩ h

theorem validateCounts_eq_ok {logical : Nat} :
    validateCounts m logical = .ok () ↔
      (m.fileCount = m.files.length ∧ m.totalBytes = logical) ∧ validateCanonical m = .ok () := by
  simp only [validateCounts, check_eq_ok, refuseIf_eq_ok, not_or, not_not]

theorem validateManifest?_eq_none :
    validateManifest? c m problemId generation = none ↔
      HeaderAccepted m problemId generation ∧ ReachesUnsliceable c m.schemaVersion [] m.files := by
  by_cases h : HeaderAccepted m problemId generation
  · rw [validateManifest?_header h, Option.map_eq_none_iff, validateManifestFiles?_eq_none]
    simp [h]
  · obtain ⟨e, he⟩ := validateManifest?_no_header (c := c) h
    rw [he]
    simp [h]

theorem validateManifest?_eq_ok :
    validateManifest? c m problemId generation = some (.ok ()) ↔
      ManifestAccepted c m problemId generation := by
  by_cases h : HeaderAccepted m problemId generation
  · rw [validateManifest?_header h, Option.map_eq_some_iff]
    simp only [bind_eq_ok, validateCounts_eq_ok]
    constructor
    · rintro ⟨checked, hfiles, logical, rfl, ⟨hcount, htotal⟩, hcanonical⟩
      obtain ⟨hoks, hnodup, -, rfl⟩ := (validateManifestFiles?_eq_ok (by decide)).mp hfiles
      rw [Nat.zero_add] at htotal
      exact ⟨h, hoks, hnodup, hcount, htotal, hcanonical⟩
    · intro hok
      refine ⟨_, (validateManifestFiles?_eq_ok (by decide)).mpr
        ⟨hok.files, hok.paths, by simp, rfl⟩, _, rfl, ⟨hok.count, ?_⟩, hok.canonical⟩
      rw [Nat.zero_add]
      exact hok.total
  · obtain ⟨e, he⟩ := validateManifest?_no_header (c := c) h
    rw [he]
    constructor
    · intro hok
      cases hok
    · intro hok
      exact absurd hok.header h

/-- `validate_manifest` answers without a panic, and answers well when it accepts, exactly
for the manifests that are well measured. -/
theorem validateManifest_total_sound (c : Contents Bytes) (m : Manifest) (problemId : String)
    (generation : Int) :
    ((validateManifest? c m problemId generation).isSome = true ∧
      (validateManifest? c m problemId generation = some (.ok ()) → ManifestSound m)) ↔
      WellMeasured c m problemId generation := by
  rw [Option.isSome_iff_ne_none, ne_eq, validateManifest?_eq_none, validateManifest?_eq_ok]
  constructor
  · rintro ⟨hpanic, hsound⟩
    refine ⟨fun h hreach => hpanic ⟨h, hreach⟩, ?_, fun h => (hsound h).distinct⟩
    intro hok
    rw [← (hsound hok).total, hok.total]
    exact Nat.mod_lt _ (by decide)
  · intro h
    refine ⟨fun ⟨hheader, hreach⟩ => h.sliceable hheader hreach, ?_⟩
    intro hok
    exact ⟨hok.total.trans (Nat.mod_eq_of_lt (h.sizes hok)), hok.count,
      fun f hf => (hok.files f hf).key, h.apart hok⟩

/-- The file of a manifest at `path`; `sha256` names its object where it can. -/
def untrustedFile (path sha256 : String) (size : Nat) : ManifestFile where
  path := path
  sha256 := sha256
  size := size
  allocatedBytes := 0
  mode := 0
  dev := 0
  ino := 0
  nlink := 1
  duplicateOf := none
  symlinkTarget := none
  objectKey := objectKeyForSha256 sha256

def untrustedManifest (files : List ManifestFile) (totalBytes : Nat) : Manifest where
  schemaVersion := 3
  problemId := "7"
  code := "sums"
  generation := 1
  createdAt := 0
  files := files
  canonicalDownloadPath := none
  totalBytes := totalBytes
  fileCount := files.length

def lengthContents : Contents String := ⟨id, id, String.length⟩

/-- A hash of one character panics; two sizes of `2 ^ 63` make a total of 0; `a//b` and `a/b`
are one place. -/
theorem validateManifest_unsound :
    validateManifest? lengthContents (untrustedManifest [untrustedFile "a" "e" 1] 1) "7" 1 = none ∧
      (∃ m, validateManifest? lengthContents m "7" 1 = some (.ok ()) ∧
        m.totalBytes ≠ totalSize m.files) ∧
      ∃ m, validateManifest? lengthContents m "7" 1 = some (.ok ()) ∧ ¬ (locations m.files).Nodup := by
  refine ⟨by decide +kernel,
    ⟨untrustedManifest [untrustedFile "a" "ab" (2 ^ 63), untrustedFile "b" "ab" (2 ^ 63)] 0,
      by decide +kernel, by decide +kernel⟩,
    ⟨untrustedManifest [untrustedFile "a/b" "ab" 1, untrustedFile "a//b" "ab" 1] 2,
      by decide +kernel, by decide +kernel⟩⟩

/-! ## Manifests with hexadecimal hashes -/

/-- The slice of the key stays within the hash and between two characters. -/
def AsciiStart (sha256 : String) : Prop :=
  ∃ a b rest, sha256.toList = a :: b :: rest ∧ a.utf8Size = 1 ∧ b.utf8Size = 1

theorem objectKeyForSha256?_ascii {sha256 : String} (hascii : AsciiStart sha256) :
    objectKeyForSha256? sha256 = some (objectKeyForSha256 sha256) := by
  obtain ⟨a, b, rest, hsha, ha, hb⟩ := hascii
  have hslice : firstTwo? sha256 = some (firstTwo sha256) := by
    rw [firstTwo?, hsha]
    simp [ha, hb, firstTwo, hsha]
  rw [objectKeyForSha256?, hslice]
  rfl

theorem validateManifestFile?_eq {pathsSeen : List String} {f : ManifestFile}
    (hkey : objectKeyForSha256? f.sha256 = some (objectKeyForSha256 f.sha256)) :
    validateManifestFile? c schemaVersion pathsSeen f =
      some (validateManifestFile c schemaVersion pathsSeen f) := by
  unfold validateManifestFile? validateManifestFile
  cases validateRelativePath f.path with
  | error e => rfl
  | ok _ =>
      by_cases hseen : f.path ∈ pathsSeen
      · simp only [if_pos hseen, refuseIf]
        rfl
      · simp only [if_neg hseen, refuseIf, hkey, Option.map_some]
        rfl

theorem validateManifestFiles?_eq {pathsSeen : List String} {logical : Nat}
    {files : List ManifestFile} (hlogical : logical < 2 ^ 64)
    (hkeys : ∀ f ∈ files, objectKeyForSha256? f.sha256 = some (objectKeyForSha256 f.sha256)) :
    validateManifestFiles? c schemaVersion pathsSeen logical files =
      some ((validateManifestFiles c schemaVersion pathsSeen files).map fun _ =>
        (logical + totalSize files) % 2 ^ 64) := by
  induction files generalizing pathsSeen logical with
  | nil =>
      change some (Except.ok logical) = some (Except.ok ((logical + 0) % 2 ^ 64))
      rw [Nat.add_zero, Nat.mod_eq_of_lt hlogical]
  | cons f fs ih =>
      obtain ⟨hkey, hkeys⟩ := List.forall_mem_cons.mp hkeys
      rw [validateManifestFiles?, validateManifestFile?_eq hkey, validateManifestFiles]
      cases validateManifestFile c schemaVersion pathsSeen f with
      | error e => rfl
      | ok _ =>
          dsimp only
          rw [ih (wrapped_lt f hlogical) hkeys, wrapped_add]
          rfl

/-- Where every hash starts with two ASCII characters, nothing panics, and the manifest is
validated as the rest of the development has it. -/
theorem validateManifest?_eq (hascii : ∀ f ∈ m.files, AsciiStart f.sha256) :
    validateManifest? c m problemId generation =
      some (validateManifest c m problemId generation) := by
  have hkeys : ∀ f ∈ m.files, objectKeyForSha256? f.sha256 = some (objectKeyForSha256 f.sha256) :=
    fun f hf => objectKeyForSha256?_ascii (hascii f hf)
  by_cases h : HeaderAccepted m problemId generation
  · rw [validateManifest?_header h, validateManifestFiles?_eq (by decide) hkeys]
    obtain ⟨hschema, hidentity⟩ := h
    have hversion : refuseIf (m.schemaVersion = 0 ∨ m.schemaVersion > 3)
        (.manifestIntegrity s!"unsupported schema_version {m.schemaVersion}") = .ok () :=
      refuseIf_eq_ok.mpr (by omega)
    have hsame : refuseIf (m.problemId ≠ problemId ∨ m.generation ≠ generation)
        (.manifestIntegrity (s!"manifest identity mismatch: {m.problemId}:{m.generation} " ++
          s!"expected {problemId}:{generation}")) = .ok () :=
      refuseIf_eq_ok.mpr (by simp [hidentity])
    rw [validateManifest, hversion, hsame, Nat.zero_add]
    cases validateManifestFiles c m.schemaVersion [] m.files <;> rfl
  · unfold validateManifest? validateManifest refuseIf
    split
    · rfl
    · rename_i hschema
      split
      · rfl
      · rename_i hidentity
        rw [not_or, not_not, not_not] at hidentity
        exact absurd ⟨by omega, hidentity⟩ h

end ExternalStorage.Restore
