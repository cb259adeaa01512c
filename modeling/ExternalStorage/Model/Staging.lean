import ExternalStorage.Library.Trees
import ExternalStorage.Model.Manifests

/-!
# Materialising a manifest

`materialize_manifest_files` over the staging directory, a tree whose leaves are files and
links.  Paths resolve as on Linux, within its limits on names and paths.  Permission bits are not in
the tree.
-/

namespace ExternalStorage.Model

open Library.Trees

variable {Bytes : Type}

/-! ## The staging directory -/

inductive StagedLeaf (Bytes : Type) where
  | file (inode : Nat) (content : Bytes)
  | symlink (target : String)
  deriving DecidableEq, Repr

structure Staging (Bytes : Type) where
  tree : Tree String (StagedLeaf Bytes) := []
  nextInode : Nat := 0
  deriving DecidableEq, Repr

def StagedLeaf.node : StagedLeaf Bytes → Node Bytes
  | .file inode content => .file inode content
  | .symlink target => .symlink (OsName.ofText target)

def Staging.entries (s : Staging Bytes) : Entries Bytes :=
  s.tree.map fun e => (e.1.map OsName.ofText, (e.2.map StagedLeaf.node).getD .dir)

/-! ## Names -/

/-- `NAME_MAX`. -/
def nameMax : Nat := 255

/-- `PATH_MAX`, without the byte that ends a path. -/
def pathMax : Nat := 4095

def nameTooLong : AppError := .io "File name too long (os error 36)"

/-- The system takes the path of these names below the directory `base`. -/
def fits (base : String) (names : List String) : Bool :=
  names.all (fun name => name.utf8ByteSize ≤ nameMax) &&
    base.utf8ByteSize + (names.map fun name => name.utf8ByteSize + 1).sum ≤ pathMax

/-- `Uuid::new_v4()`; all of them have as many characters. -/
def newUuid : String := "00000000-0000-4000-8000-000000000000"

def restoreName (name uuid : String) : String := "." ++ name ++ ".restore." ++ uuid

/-- `target.with_file_name(…)`: the download goes there before it is renamed. -/
def temporaryNames (names : List String) : List String :=
  names.dropLast ++ (names.getLast?.map fun name => restoreName name newUuid).toList

/-! ## Path resolution -/

def maxSymlinks : Nat := 40

def notFound : AppError := .io "No such file or directory (os error 2)"
def notADirectory : AppError := .io "Not a directory (os error 20)"
def fileExists : AppError := .io "File exists (os error 17)"

/-- The directory that `cs` leads to from `dir`, with the number of links that may still be
followed.  What lies outside of the staging directory is not modelled: a path that leads
there is an error. -/
def resolveDir (t : Tree String (StagedLeaf Bytes)) (links : Nat) (dir : List String) :
    List Component → Except AppError (Nat × List String)
  | [] => .ok (links, dir)
  | .normal name :: cs =>
      match lookup t (dir ++ [name]) with
      | none => .error notFound
      | some none => resolveDir t links (dir ++ [name]) cs
      | some (some (.file ..)) => .error notADirectory
      | some (some (.symlink target)) =>
          match links with
          | 0 => .error (.io "Too many levels of symbolic links (os error 40)")
          | links + 1 => resolveDir t links dir (components target ++ cs)
  | .curDir :: cs => resolveDir t links dir cs
  | .parentDir :: cs => if dir = [] then .error notFound else resolveDir t links dir.dropLast cs
  | .rootDir :: _ => .error notFound
  termination_by cs => (links, cs.length)

/-- `create_dir_all` of `dir` followed by `names`, and the directory it comes to. -/
def createDirAll (t : Tree String (StagedLeaf Bytes)) (links : Nat) (dir : List String) :
    List String → Except AppError (Tree String (StagedLeaf Bytes) × List String)
  | [] => .ok (t, dir)
  | name :: names =>
      match lookup t (dir ++ [name]) with
      | none => createDirAll (t ++ [(dir ++ [name], none)]) links (dir ++ [name]) names
      | some none => createDirAll t links (dir ++ [name]) names
      | some (some (.file ..)) => .error notADirectory
      | some (some (.symlink target)) =>
          match links with
          | 0 => .error (.io "Too many levels of symbolic links (os error 40)")
          | links + 1 =>
              match resolveDir t links dir (components target) with
              | .error e => .error e
              | .ok (links, dir) => createDirAll t links dir names

/-- Makes the parent directories of a path, and tells where in the tree it then lies. -/
def Staging.createParents (s : Staging Bytes) (staging path : String) :
    Except AppError (Staging Bytes × List String) := do
  refuseIf (fits staging (pathNames path).dropLast = false) nameTooLong
  let (tree, dir) ← createDirAll s.tree maxSymlinks [] (pathNames path).dropLast
  return ({ s with tree := tree }, dir ++ (pathNames path).getLast?.toList)

/-! ## Leaves -/

/-- The rename of a downloaded file to `p`. -/
def Staging.putFile (s : Staging Bytes) (p : List String) (content : Bytes) :
    Except AppError (Staging Bytes) :=
  match lookup s.tree p with
  | none => .ok ⟨s.tree ++ [(p, some (.file s.nextInode content))], s.nextInode + 1⟩
  | some none => .error (.io "Is a directory (os error 21)")
  | some (some _) => .ok ⟨setLeaf s.tree p (.file s.nextInode content), s.nextInode + 1⟩

/-- `link(2)` and `symlink(2)`. -/
def Staging.addLeaf (s : Staging Bytes) (p : List String) (leaf : StagedLeaf Bytes) :
    Except AppError (Staging Bytes) :=
  match lookup s.tree p with
  | none => .ok { s with tree := s.tree ++ [(p, some leaf)] }
  | some _ => .error fileExists

/-- The leaf that a path names; a link is not followed. -/
def Staging.leafAt (s : Staging Bytes) (path : String) : Except AppError (StagedLeaf Bytes) := do
  refuseIf (namesDirectory path) notADirectory
  let (_, dir) ← resolveDir s.tree maxSymlinks [] (components path).dropLast
  match lookup s.tree (dir ++ (pathNames path).getLast?.toList) with
  | none => .error notFound
  | some none => .error (.io "Operation not permitted (os error 1)")
  | some (some leaf) => .ok leaf

/-! ## `materialize_manifest_files` -/

/-- `get_object` and `get_object_to_path`, where a missing object is reported for its path. -/
def getManifestObject (store : String → Option Bytes) (f : ManifestFile) : Except AppError Bytes :=
  match store f.objectKey with
  | none => .error (.r2ObjectMissing f.path f.objectKey)
  | some bytes => .ok bytes

def materializeRegular (c : Contents Bytes) (store : String → Option Bytes) (staging : String)
    (s : Staging Bytes) (f : ManifestFile) : Except AppError (Staging Bytes) := do
  validateRelativePath f.path
  let (s, target) ← s.createParents staging f.path
  let bytes ← getManifestObject store f
  refuseIf (fits staging (temporaryNames (pathNames f.path)) = false) nameTooLong
  refuseIf (c.sha256Bytes bytes ≠ f.sha256) (.checksumMismatch f.sha256 (c.sha256Bytes bytes))
  refuseIf (namesDirectory f.path) notADirectory
  s.putFile target bytes

def materializeHardLink (files : List ManifestFile) (staging : String) (s : Staging Bytes)
    (f : ManifestFile) : Except AppError (Staging Bytes) := do
  validateRelativePath f.path
  match f.duplicateOf with
  | none => .error (.manifestIntegrity s!"hardlink source missing for {f.path}")
  | some sourcePath => do
      validateRelativePath sourcePath
      match files.find? fun g => g.path = sourcePath with
      | none => .error (.manifestIntegrity s!"hardlink source {sourcePath} missing for {f.path}")
      | some source => do
          refuseIf (source.duplicateOf.isSome ∨ source.symlinkTarget.isSome ∨
              source.sha256 ≠ f.sha256 ∨ source.size ≠ f.size)
            (.manifestIntegrity s!"hardlink source metadata mismatch for {f.path}")
          let (s, target) ← s.createParents staging f.path
          let leaf ← s.leafAt sourcePath
          refuseIf (fits staging (pathNames f.path) = false) nameTooLong
          refuseIf (namesDirectory f.path) notFound
          s.addLeaf target leaf

def materializeSymlink [DecidableEq Bytes] (c : Contents Bytes) (store : String → Option Bytes)
    (staging : String) (s : Staging Bytes) (f : ManifestFile) :
    Except AppError (Staging Bytes) := do
  validateRelativePath f.path
  match f.symlinkTarget with
  | none => .error (.manifestIntegrity s!"symlink target missing for {f.path}")
  | some linkTarget => do
      validateSymlinkTarget f.path linkTarget
      let bytes ← getManifestObject store f
      refuseIf (c.sha256Bytes bytes ≠ f.sha256 ∨ bytes ≠ c.textBytes linkTarget)
        (.checksumMismatch f.sha256 (c.sha256Bytes bytes))
      let (s, target) ← s.createParents staging f.path
      refuseIf (fits staging (pathNames f.path) = false) nameTooLong
      refuseIf (namesDirectory f.path) notFound
      s.addLeaf target (.symlink linkTarget)

def ManifestFile.isRegular (f : ManifestFile) : Bool :=
  f.duplicateOf.isNone && f.symlinkTarget.isNone

def ManifestFile.isHardLink (f : ManifestFile) : Bool :=
  f.duplicateOf.isSome && f.symlinkTarget.isNone

/-- Regular files first, then hard links to them, then symbolic links. -/
def materializeManifestFiles [DecidableEq Bytes] (c : Contents Bytes)
    (store : String → Option Bytes) (m : Manifest) (staging : String) :
    Except AppError (Staging Bytes) := do
  let s ← (m.files.filter ManifestFile.isRegular).foldlM (materializeRegular c store staging) {}
  let s ← (m.files.filter ManifestFile.isHardLink).foldlM (materializeHardLink m.files staging) s
  (m.files.filter fun f => f.symlinkTarget.isSome).foldlM (materializeSymlink c store staging) s

end ExternalStorage.Model
