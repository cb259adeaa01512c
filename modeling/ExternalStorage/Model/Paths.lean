import ExternalStorage.Library.Texts
import ExternalStorage.Model.Errors

/-!
# Relative paths

`paths.rs` over the components of `std::path` on Unix.  A file name is the sequence of
its valid and its invalid UTF-8 chunks, so that the lossy text of a name is a function
of it.
-/

namespace ExternalStorage.Model

open Library.Texts

/-! ## Components -/

inductive Component where
  | rootDir | curDir | parentDir
  | normal (name : String)
  deriving DecidableEq, Repr

def pathParts (path : String) : List String := (path.toList.splitOn '/').map String.ofList

/-- A part that is not the first: empty ones and `.` are passed over. -/
def laterComponent (part : String) : Option Component :=
  if part = "" ∨ part = "." then none
  else if part = ".." then some .parentDir
  else some (.normal part)

/-- The first part also tells an absolute path and a leading `.`. -/
def firstComponent (part : String) (last : Bool) : Option Component :=
  if part = "" then (if last then none else some .rootDir)
  else if part = "." then some .curDir
  else laterComponent part

/-- `Path::components`. -/
def components (path : String) : List Component :=
  match pathParts path with
  | [] => []
  | first :: rest => (firstComponent first rest.isEmpty).toList ++ rest.filterMap laterComponent

def Component.name? : Component → Option String
  | .normal name => some name
  | _ => none

/-- The names of the components of a path that is relative and normal. -/
def pathNames (path : String) : List String := (components path).filterMap Component.name?

/-- `Path::is_absolute`. -/
def isAbsolute (path : String) : Bool := (components path).head? = some .rootDir

/-- The path ends in a slash or in `.`: the system takes it for a directory. -/
def namesDirectory (path : String) : Bool :=
  (pathParts path).getLast?.any fun part => part = "" || part = "."

/-! ## Validation -/

def validateRelativePath (path : String) : Except AppError Unit :=
  if isAbsolute path || path = "" then
    .error (.pathEscape path)
  else if (components path).all fun c => c.name?.isSome then
    .ok ()
  else
    .error (.pathEscape path)

/-- The depth below the problem folder after a link's target is resolved from `depth`. -/
def resolvedDepth : Nat → List Component → Option Nat
  | depth, [] => some depth
  | depth, .normal _ :: cs => resolvedDepth (depth + 1) cs
  | depth, .curDir :: cs => resolvedDepth depth cs
  | depth + 1, .parentDir :: cs => resolvedDepth depth cs
  | 0, .parentDir :: _ => none
  | _, .rootDir :: _ => none

def validateSymlinkTarget (linkPath target : String) : Except AppError Unit := do
  validateRelativePath linkPath
  refuseIf (target = "" ∨ isAbsolute target) (.pathEscape s!"{linkPath} -> {target}")
  refuseIf (resolvedDepth ((components linkPath).length - 1) (components target)).isNone
    (.pathEscape s!"{linkPath} -> {target}")

/-! ## File names -/

inductive NameChunk where
  | valid (text : String)
  | invalid (bytes : List UInt8)
  deriving DecidableEq, Repr

/-- The name of a directory entry, or the target of a link, cut as `Utf8Chunks` cuts it. -/
abbrev OsName := List NameChunk

def OsName.ofText (text : String) : OsName := [.valid text]

/-- `OsStr::to_string_lossy`: U+FFFD for each invalid chunk. -/
def OsName.toStringLossy (name : OsName) : String :=
  String.ofList (name.flatMap fun
    | .valid text => text.toList
    | .invalid _ => ['\uFFFD'])

/-- `OsStr::to_str`. -/
def OsName.toStr? (name : OsName) : Option String :=
  if name.all fun | .valid _ => true | .invalid _ => false then some name.toStringLossy else none

@[simp] theorem OsName.toStringLossy_ofText (text : String) :
    (OsName.ofText text).toStringLossy = text := by
  simp [OsName.ofText, OsName.toStringLossy]

@[simp] theorem OsName.toStr?_ofText (text : String) :
    (OsName.ofText text).toStr? = some text := by
  rw [OsName.toStr?, OsName.toStringLossy_ofText]
  rfl

def joinPath (names : List String) : String :=
  String.ofList (['/'].intercalate (names.map String.toList))

/-- `value.replace('\\', "/")`. -/
def replaceBackslashes (path : String) : String :=
  String.ofList (path.toList.map fun c => if c = '\\' then '/' else c)

/-- `normalized_relative_path` of an entry below the base, by its names. -/
def normalizedRelativePath (names : List OsName) : Except AppError String := do
  let value := replaceBackslashes (joinPath (names.map OsName.toStringLossy))
  validateRelativePath value
  return value

/-! ## What the parts of a path are -/

structure EntryName (name : String) : Prop where
  nonempty : name ≠ ""
  notCur : name ≠ "."
  notParent : name ≠ ".."
  noSlash : '/' ∉ name.toList

/-- One that also comes out of a path that the scanner has normalised. -/
structure PlainName (name : String) : Prop where
  nonempty : name ≠ ""
  notCur : name ≠ "."
  notParent : name ≠ ".."
  noSlash : '/' ∉ name.toList
  noBackslash : '\\' ∉ name.toList

theorem PlainName.entryName {name : String} (h : PlainName name) : EntryName name :=
  ⟨h.nonempty, h.notCur, h.notParent, h.noSlash⟩

theorem laterComponent_eq_normal {part name : String}
    (h : laterComponent part = some (.normal name)) :
    part = name ∧ name ≠ "" ∧ name ≠ "." ∧ name ≠ ".." := by
  unfold laterComponent at h
  split at h
  · cases h
  · rename_i hempty
    split at h
    · cases h
    · rename_i hparent
      cases h
      exact ⟨rfl, fun hname => hempty (.inl hname), fun hname => hempty (.inr hname), hparent⟩

theorem firstComponent_eq_normal {part name : String} {last : Bool}
    (h : firstComponent part last = some (.normal name)) :
    part = name ∧ name ≠ "" ∧ name ≠ "." ∧ name ≠ ".." := by
  unfold firstComponent at h
  split at h
  · split at h <;> cases h
  · split at h
    · cases h
    · exact laterComponent_eq_normal h

theorem mem_components_normal {path name : String} (h : .normal name ∈ components path) :
    name ∈ pathParts path ∧ name ≠ "" ∧ name ≠ "." ∧ name ≠ ".." := by
  unfold components at h
  split at h
  · cases h
  · rename_i first rest hparts
    rw [hparts]
    rcases List.mem_append.mp h with hfirst | hlater
    · obtain ⟨rfl, hname⟩ := firstComponent_eq_normal (Option.mem_toList.mp hfirst)
      exact ⟨List.mem_cons_self, hname⟩
    · obtain ⟨part, hpart, hcomponent⟩ := List.mem_filterMap.mp hlater
      obtain ⟨rfl, hname⟩ := laterComponent_eq_normal hcomponent
      exact ⟨List.mem_cons_of_mem _ hpart, hname⟩

theorem mem_pathNames {path name : String} :
    name ∈ pathNames path ↔ .normal name ∈ components path := by
  rw [pathNames, List.mem_filterMap]
  constructor
  · rintro ⟨c, hc, hname⟩
    cases c <;> simp only [Component.name?, Option.some.injEq, reduceCtorEq] at hname
    rw [← hname]
    exact hc
  · exact fun h => ⟨_, h, rfl⟩

theorem entryName_of_mem_pathNames {path name : String} (h : name ∈ pathNames path) :
    EntryName name := by
  obtain ⟨hpart, hempty, hcur, hparent⟩ := mem_components_normal (mem_pathNames.mp h)
  obtain ⟨part, hsplit, rfl⟩ := List.mem_map.mp hpart
  refine ⟨hempty, hcur, hparent, ?_⟩
  rw [String.toList_ofList]
  exact notMem_of_mem_splitOn hsplit

theorem plainName_of_mem_pathNames {path name : String} (hpath : '\\' ∉ path.toList)
    (h : name ∈ pathNames path) : PlainName name := by
  have hentry := entryName_of_mem_pathNames h
  obtain ⟨part, hsplit, rfl⟩ := List.mem_map.mp (mem_components_normal (mem_pathNames.mp h)).1
  refine ⟨hentry.nonempty, hentry.notCur, hentry.notParent, hentry.noSlash, ?_⟩
  rw [String.toList_ofList]
  exact fun hslash => hpath (mem_of_mem_splitOn hsplit hslash)

theorem slash_notMem_of_mem_pathNames {path name : String} (h : name ∈ pathNames path) :
    '/' ∉ name.toList :=
  (entryName_of_mem_pathNames h).noSlash

/-! ## Joined names -/

theorem pathParts_joinPath {names : List String} (hnames : names ≠ [])
    (hslash : ∀ name ∈ names, '/' ∉ name.toList) : pathParts (joinPath names) = names := by
  rw [pathParts, joinPath, String.toList_ofList, List.splitOn_intercalate]
  · rw [List.map_map]
    exact (List.map_congr_left fun name _ => String.ofList_toList).trans (List.map_id _)
  · rintro part hpart
    obtain ⟨name, hname, rfl⟩ := List.mem_map.mp hpart
    exact hslash name hname
  · simpa using hnames

theorem pathParts_eq_iff {text : String} {parts : List String} (hparts : parts ≠ []) :
    pathParts text = parts ↔ text = joinPath parts ∧ ∀ part ∈ parts, '/' ∉ part.toList := by
  constructor
  · intro h
    have hsplit : text.toList.splitOn '/' = parts.map String.toList := by
      rw [← h, pathParts, List.map_map]
      exact ((List.map_congr_left fun part _ => String.toList_ofList).trans (List.map_id _)).symm
    obtain ⟨htext, hsep⟩ := (splitOn_eq_iff (by simpa using hparts)).mp hsplit
    refine ⟨?_, fun part hpart => hsep _ (List.mem_map_of_mem hpart)⟩
    rw [joinPath, ← htext, String.ofList_toList]
  · rintro ⟨rfl, hslash⟩
    exact pathParts_joinPath hparts hslash

theorem pathParts_append (a b : String) : pathParts (a ++ "/" ++ b) = pathParts a ++ pathParts b := by
  have hlist : (a ++ "/" ++ b).toList = a.toList ++ '/' :: b.toList := by
    simp
  rw [pathParts, hlist, List.splitOn_append_cons_self, List.map_append, pathParts, pathParts]

theorem EntryName.laterComponent {name : String} (h : EntryName name) :
    laterComponent name = some (.normal name) := by
  simp [Model.laterComponent, h.nonempty, h.notCur, h.notParent]

theorem components_joinPath {names : List String} (hnames : names ≠ [])
    (hentry : ∀ name ∈ names, EntryName name) :
    components (joinPath names) = names.map .normal := by
  rw [components, pathParts_joinPath hnames fun name hname => (hentry name hname).noSlash]
  cases names with
  | nil => exact absurd rfl hnames
  | cons first rest =>
      have hfirst := hentry first List.mem_cons_self
      have hlater : rest.filterMap laterComponent = rest.map .normal := by
        rw [← List.filterMap_eq_map]
        exact List.filterMap_congr fun name hname =>
          (hentry name (List.mem_cons_of_mem _ hname)).laterComponent
      simp only [firstComponent, hfirst.nonempty, hfirst.notCur, if_false,
        hfirst.laterComponent, Option.toList_some, hlater, List.map_cons,
        List.singleton_append]

theorem pathNames_joinPath {names : List String} (hentry : ∀ name ∈ names, EntryName name) :
    pathNames (joinPath names) = names := by
  by_cases hnames : names = []
  · rw [hnames]
    rfl
  · rw [pathNames, components_joinPath hnames hentry, List.filterMap_map]
    exact List.filterMap_some

/-! ## Normalised paths -/

theorem replaceBackslashes_eq_self {path : String} (h : '\\' ∉ path.toList) :
    replaceBackslashes path = path := by
  have hmap : path.toList.map (fun c => if c = '\\' then '/' else c) = path.toList := by
    refine (List.map_congr_left ?_).trans (List.map_id _)
    intro c hc
    rw [if_neg]
    · rfl
    · rintro rfl
      exact h hc
  rw [replaceBackslashes, hmap, String.ofList_toList]

theorem normalizedRelativePath_eq_ok {names : List OsName} {path : String} :
    normalizedRelativePath names = .ok path ↔
      path = replaceBackslashes (joinPath (names.map OsName.toStringLossy)) ∧
        validateRelativePath path = .ok () := by
  unfold normalizedRelativePath
  generalize replaceBackslashes (joinPath (names.map OsName.toStringLossy)) = value
  dsimp only
  cases hvalid : validateRelativePath value with
  | error e =>
      constructor
      · intro h
        cases h
      · rintro ⟨rfl, h⟩
        rw [hvalid] at h
        cases h
  | ok u =>
      constructor
      · intro h
        cases h
        exact ⟨rfl, hvalid⟩
      · rintro ⟨rfl, -⟩
        rfl

theorem backslash_notMem_normalized {names : List OsName} {path : String}
    (h : normalizedRelativePath names = .ok path) : '\\' ∉ path.toList := by
  rw [(normalizedRelativePath_eq_ok.mp h).1, replaceBackslashes, String.toList_ofList]
  intro hmem
  obtain ⟨c, -, hc⟩ := List.mem_map.mp hmem
  split at hc
  · exact absurd hc (by decide)
  · rename_i hne
    exact hne hc

theorem validateRelativePath_eq_ok {path : String} :
    validateRelativePath path = .ok () ↔
      (isAbsolute path = false ∧ path ≠ "") ∧
        (components path).all (fun c => c.name?.isSome) = true := by
  unfold validateRelativePath
  generalize (components path).all (fun c => c.name?.isSome) = normal
  generalize isAbsolute path = absolute
  by_cases hempty : path = ""
  · cases absolute <;> simp [hempty]
  · cases absolute <;> cases normal <;> simp [hempty]

theorem pathNames_ne_nil {path : String} (h : validateRelativePath path = .ok ()) :
    pathNames path ≠ [] := by
  obtain ⟨⟨habsolute, hempty⟩, hnormal⟩ := validateRelativePath_eq_ok.mp h
  intro hnil
  have hcomponents : components path = [] := by
    rw [List.eq_nil_iff_forall_not_mem]
    intro c hc
    obtain ⟨name, hname⟩ := Option.isSome_iff_exists.mp (List.all_eq_true.mp hnormal c hc)
    have hmem : name ∈ pathNames path := List.mem_filterMap.mpr ⟨c, hc, hname⟩
    rw [hnil] at hmem
    cases hmem
  -- Only the empty path has no first component.
  have hsplit : ['/'].intercalate (path.toList.splitOn '/') = path.toList :=
    List.intercalate_splitOn '/'
  rw [components] at hcomponents
  split at hcomponents
  · rename_i hparts
    exact List.splitOn_ne_nil _ _ (List.map_eq_nil_iff.mp hparts)
  · rename_i first rest hparts
    rw [List.append_eq_nil_iff, Option.toList_eq_nil_iff] at hcomponents
    have hfirst := hcomponents.1
    unfold firstComponent at hfirst
    split at hfirst
    · rename_i hpart
      cases rest with
      | nil =>
          obtain ⟨part, rests, hcons, rfl, hnone⟩ := List.map_eq_cons_iff.mp hparts
          rw [hcons, List.map_eq_nil_iff.mp hnone, List.intercalate_singleton] at hsplit
          refine hempty (String.toList_injective ?_)
          rw [← hsplit, ← String.toList_ofList (l := part), hpart]
      | cons _ _ => simp at hfirst
    · rename_i hpart
      split at hfirst
      · cases hfirst
      · rename_i hcur
        rw [laterComponent, if_neg (not_or.mpr ⟨hpart, hcur⟩)] at hfirst
        split at hfirst <;> cases hfirst

theorem backslash_notMem_joinPath {names : List String}
    (hplain : ∀ name ∈ names, PlainName name) : '\\' ∉ (joinPath names).toList := by
  rw [joinPath, String.toList_ofList]
  induction names with
  | nil => exact List.not_mem_nil
  | cons name names ih =>
      have hname := (hplain name List.mem_cons_self).noBackslash
      cases names with
      | nil => simpa using hname
      | cons next names =>
          have hrest := ih fun name hmem => hplain name (List.mem_cons_of_mem _ hmem)
          rw [List.map_cons, List.map_cons, List.intercalate_cons_cons, ← List.map_cons,
            List.mem_append, List.mem_append, not_or, not_or]
          exact ⟨⟨hname, by decide⟩, hrest⟩

/-- Names of plain components come back from the scanner as they are. -/
theorem normalizedRelativePath_ofText {names : List String} (hnames : names ≠ [])
    (hplain : ∀ name ∈ names, PlainName name) :
    normalizedRelativePath (names.map OsName.ofText) = .ok (joinPath names) := by
  have htexts : (names.map OsName.ofText).map OsName.toStringLossy = names := by
    rw [List.map_map]
    exact (List.map_congr_left fun name _ => OsName.toStringLossy_ofText name).trans
      (List.map_id _)
  have hentry : ∀ name ∈ names, EntryName name := fun name hname => (hplain name hname).entryName
  rw [normalizedRelativePath_eq_ok, htexts,
    replaceBackslashes_eq_self (backslash_notMem_joinPath hplain)]
  refine ⟨rfl, validateRelativePath_eq_ok.mpr ⟨⟨?_, ?_⟩, ?_⟩⟩
  · rw [isAbsolute, components_joinPath hnames hentry]
    cases names with
    | nil => exact absurd rfl hnames
    | cons => simp
  · intro hempty
    have hback := pathNames_joinPath hentry
    rw [hempty] at hback
    exact hnames hback.symm
  · rw [components_joinPath hnames hentry]
    simp [Component.name?]

end ExternalStorage.Model
