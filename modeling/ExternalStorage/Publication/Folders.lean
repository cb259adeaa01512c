import ExternalStorage.Model.Paths

/-!
# Whose folder a path belongs to

A problem owns the folder that `safe_problem_folder` makes of its code, and what is below it
goes where the folder is renamed to.  Codes are told apart as texts, folders by their names
on the way down.
-/

namespace ExternalStorage.Publication

open ExternalStorage.Model

/-! ## Folders -/

/-- The problem root is given by its names. -/
abbrev Directory := List String

def validateProblemCode (code : String) : Except AppError Unit := validateRelativePath code

/-- `root.join(code)`, for a code that is relative. -/
def safeProblemFolder (root : Directory) (code : String) : Except AppError Directory := do
  validateProblemCode code
  return root ++ pathNames code

/-- `root.join(".locks")` of `lock_problem_data`. -/
def lockRoot (root : Directory) : Directory := root ++ [".locks"]

/-- Where a path lies after `rename(folder, staging)`. -/
def afterRename (folder staging path : Directory) : Directory :=
  if folder <+: path then staging ++ path.drop folder.length else path

/-- Two problems that own these folders leave each other's files, the root and its locks
alone. -/
structure FoldersApart (root folder folder' : Directory) : Prop where
  different : folder ≠ folder'
  disjoint : ¬ folder <+: folder' ∧ ¬ folder' <+: folder
  notRoot : folder ≠ root ∧ folder' ≠ root
  notLocks : folder ≠ lockRoot root ∧ folder' ≠ lockRoot root
  renames : ∀ staging path, folder' <+: path → afterRename folder staging path = path
  renames' : ∀ staging path, folder <+: path → afterRename folder' staging path = path

def normalCode (code : String) : String := joinPath (pathNames code)

/-- One code begins the other, up to the end or to a slash. -/
def Leads (code code' : String) : Prop :=
  normalCode code = normalCode code' ∨
    ∃ rest, normalCode code' = normalCode code ++ "/" ++ rest

structure CodesApart (code code' : String) : Prop where
  left : ¬ Leads code code'
  right : ¬ Leads code' code
  notLocks : normalCode code ≠ ".locks" ∧ normalCode code' ≠ ".locks"

/-! ## Names and their text -/

variable {code code' : String} {root : Directory}

theorem pathNames_normalCode (code : String) : pathNames (normalCode code) = pathNames code :=
  pathNames_joinPath fun _ => entryName_of_mem_pathNames

theorem pathParts_normalCode (hcode : validateProblemCode code = .ok ()) :
    pathParts (normalCode code) = pathNames code :=
  pathParts_joinPath (pathNames_ne_nil hcode) fun _ => slash_notMem_of_mem_pathNames

theorem leads_iff (hcode : validateProblemCode code = .ok ())
    (hcode' : validateProblemCode code' = .ok ()) :
    Leads code code' ↔ pathNames code <+: pathNames code' := by
  constructor
  · rintro (hsame | ⟨rest, hrest⟩)
    · have hnames : pathNames code = pathNames code' := by
        rw [← pathNames_normalCode code, hsame, pathNames_normalCode]
      exact hnames ▸ List.prefix_refl _
    · have hparts := congrArg pathParts hrest
      rw [pathParts_append, pathParts_normalCode hcode, pathParts_normalCode hcode'] at hparts
      exact ⟨pathParts rest, hparts.symm⟩
  · rintro ⟨rest, hrest⟩
    by_cases hnil : rest = []
    · left
      rw [hnil, List.append_nil] at hrest
      rw [normalCode, normalCode, hrest]
    · right
      refine ⟨joinPath rest, ?_⟩
      have hslash : ∀ name ∈ pathNames code', '/' ∉ name.toList :=
        fun _ => slash_notMem_of_mem_pathNames
      have hparts : pathParts (normalCode code ++ "/" ++ joinPath rest) = pathNames code' := by
        rw [pathParts_append, pathParts_normalCode hcode, pathParts_joinPath hnil, hrest]
        exact fun name hname => hslash name (hrest ▸ List.mem_append_right _ hname)
      exact ((pathParts_eq_iff (pathNames_ne_nil hcode')).mp hparts).1.symm

theorem normalCode_eq_locks (code : String) :
    normalCode code = ".locks" ↔ pathNames code = [".locks"] := by
  constructor
  · intro h
    rw [← pathNames_normalCode, h]
    decide +kernel
  · intro h
    rw [normalCode, h]
    decide +kernel

/-! ## The folders of two codes -/

theorem safeProblemFolder_eq_ok (hcode : validateProblemCode code = .ok ()) :
    safeProblemFolder root code = .ok (root ++ pathNames code) := by
  rw [safeProblemFolder, hcode]
  rfl

theorem afterRename_eq_self {folder folder' staging path : Directory}
    (hdisjoint : ¬ folder <+: folder' ∧ ¬ folder' <+: folder) (hpath : folder' <+: path) :
    afterRename folder staging path = path := by
  refine if_neg fun hfolder => ?_
  rcases Nat.le_total folder.length folder'.length with hlength | hlength
  · exact hdisjoint.1 (List.prefix_of_prefix_length_le hfolder hpath hlength)
  · exact hdisjoint.2 (List.prefix_of_prefix_length_le hpath hfolder hlength)

theorem append_eq_lockRoot {names : List String} :
    root ++ names = lockRoot root ↔ names = [".locks"] := by
  rw [lockRoot, List.append_cancel_left_eq]

/-- Two accepted codes own folders apart exactly when neither leads to the other, as far as
dots and repeated slashes do not count, and neither is the name of the lock directory.  A
code leads to itself. -/
theorem problem_folders_apart_iff (root : Directory) (hcode : validateProblemCode code = .ok ())
    (hcode' : validateProblemCode code' = .ok ()) :
    (∃ folder folder', safeProblemFolder root code = .ok folder ∧
        safeProblemFolder root code' = .ok folder' ∧ FoldersApart root folder folder') ↔
      CodesApart code code' := by
  have hnames := pathNames_ne_nil hcode
  have hnames' := pathNames_ne_nil hcode'
  rw [safeProblemFolder_eq_ok hcode, safeProblemFolder_eq_ok hcode']
  constructor
  · rintro ⟨folder, folder', hfolder, hfolder', hapart⟩
    cases hfolder
    cases hfolder'
    obtain ⟨hbelow, habove⟩ := hapart.disjoint
    rw [List.prefix_append_right_inj] at hbelow habove
    refine ⟨?_, ?_, ?_, ?_⟩
    · rwa [leads_iff hcode hcode']
    · rwa [leads_iff hcode' hcode]
    · rw [ne_eq, normalCode_eq_locks, ← append_eq_lockRoot]
      exact hapart.notLocks.1
    · rw [ne_eq, normalCode_eq_locks, ← append_eq_lockRoot]
      exact hapart.notLocks.2
  · intro hapart
    have hbelow := hapart.left
    have habove := hapart.right
    rw [leads_iff hcode hcode'] at hbelow
    rw [leads_iff hcode' hcode] at habove
    have hdisjoint : ¬ root ++ pathNames code <+: root ++ pathNames code' ∧
        ¬ root ++ pathNames code' <+: root ++ pathNames code := by
      rw [List.prefix_append_right_inj, List.prefix_append_right_inj]
      exact ⟨hbelow, habove⟩
    refine ⟨_, _, rfl, rfl, ?_, hdisjoint, ⟨?_, ?_⟩, ⟨?_, ?_⟩, ?_, ?_⟩
    · intro heq
      exact hdisjoint.1 (heq ▸ List.prefix_refl _)
    · exact fun h => hnames (List.append_right_eq_self.mp h)
    · exact fun h => hnames' (List.append_right_eq_self.mp h)
    · rw [ne_eq, append_eq_lockRoot, ← normalCode_eq_locks]
      exact hapart.notLocks.1
    · rw [ne_eq, append_eq_lockRoot, ← normalCode_eq_locks]
      exact hapart.notLocks.2
    · exact fun _ _ hpath => afterRename_eq_self hdisjoint hpath
    · exact fun _ _ hpath => afterRename_eq_self hdisjoint.symm hpath

theorem problem_folders_apart_top_level :
    ∃ folder folder', safeProblemFolder ["srv", "problems"] "sums" = .ok folder ∧
      safeProblemFolder ["srv", "problems"] "paths" = .ok folder' ∧
      FoldersApart ["srv", "problems"] folder folder' := by
  have hsums : validateProblemCode "sums" = .ok () := by decide +kernel
  have hpaths : validateProblemCode "paths" = .ok () := by decide +kernel
  refine (problem_folders_apart_iff _ hsums hpaths).mpr ⟨?_, ?_, by decide +kernel⟩
  · rw [leads_iff hsums hpaths]
    decide +kernel
  · rw [leads_iff hpaths hsums]
    decide +kernel

/-- A code below another, two spellings of one folder, and the lock directory. -/
theorem nested_code_owns_no_folder :
    [("a", "a/b"), ("a//b", "a/b"), (".locks", "a")].Forall fun codes =>
      validateProblemCode codes.1 = .ok () ∧ validateProblemCode codes.2 = .ok () ∧
        codes.1 ≠ codes.2 ∧
        ¬ ∃ folder folder', safeProblemFolder ["srv", "problems"] codes.1 = .ok folder ∧
          safeProblemFolder ["srv", "problems"] codes.2 = .ok folder' ∧
          FoldersApart ["srv", "problems"] folder folder' := by
  have haccepted : ∀ codes ∈ [("a", "a/b"), ("a//b", "a/b"), (".locks", "a")],
      validateProblemCode codes.1 = .ok () ∧ validateProblemCode codes.2 = .ok () ∧
        codes.1 ≠ codes.2 := by
    decide +kernel
  have hshared : ∀ codes ∈ [("a", "a/b"), ("a//b", "a/b"), (".locks", "a")],
      ["srv", "problems"] ++ pathNames codes.1 <+: ["srv", "problems"] ++ pathNames codes.2 ∨
        ["srv", "problems"] ++ pathNames codes.1 = lockRoot ["srv", "problems"] := by
    decide +kernel
  rw [List.forall_iff_forall_mem]
  intro codes hcodes
  obtain ⟨hfirst, hsecond, hne⟩ := haccepted codes hcodes
  refine ⟨hfirst, hsecond, hne, ?_⟩
  rintro ⟨folder, folder', hfolder, hfolder', hapart⟩
  rw [safeProblemFolder_eq_ok hfirst] at hfolder
  rw [safeProblemFolder_eq_ok hsecond] at hfolder'
  cases hfolder
  cases hfolder'
  exact (hshared codes hcodes).elim hapart.disjoint.1 hapart.notLocks.1

end ExternalStorage.Publication
