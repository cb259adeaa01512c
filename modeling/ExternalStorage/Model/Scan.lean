import ExternalStorage.Model.Paths
import ExternalStorage.Model.Snapshots

/-!
# The scanner

`scanner.rs` over what `WalkDir` yields of a problem folder: the entries below it, in any
order, each with its node and its metadata.  The folder does not change while it is
scanned, so a file that is read twice has one content.
-/

namespace ExternalStorage.Model

/-- What the scanner takes of a content: SHA-256, the bytes of a text, and the length. -/
structure Contents (Bytes : Type) where
  sha256Bytes : Bytes → String
  textBytes : String → Bytes
  len : Bytes → Nat

variable {Bytes : Type}

/-! ## Folders -/

inductive Node (Bytes : Type) where
  | dir
  /-- Hard links are files of one inode. -/
  | file (inode : Nat) (content : Bytes)
  | symlink (target : OsName)
  /-- A device, a socket or a pipe. -/
  | special
  deriving DecidableEq, Repr

/-- What lies below a folder, each entry under the names that lead to it. -/
abbrev Entries (Bytes : Type) := List (List OsName × Node Bytes)

structure Stat where
  dev : Nat
  ino : Nat
  nlink : Nat
  blocks : Nat
  mode : Nat
  deriving DecidableEq, Repr

structure WalkEntry (Bytes : Type) where
  names : List OsName
  node : Node Bytes
  stat : Stat
  deriving DecidableEq, Repr

def Stat.inode (s : Stat) : Nat × Nat := (s.dev, s.ino)

/-- The walk yields the entries, and two files have one device and inode number exactly if
they are one inode. -/
structure Walks (walk : List (WalkEntry Bytes)) (entries : Entries Bytes) : Prop where
  entries : (walk.map fun e => (e.names, e.node)).Perm entries
  inodes : ∀ e ∈ walk, ∀ e' ∈ walk, ∀ i x i' x', e.node = .file i x → e'.node = .file i' x' →
    (e.stat.inode = e'.stat.inode ↔ i = i')

/-! ## `scan_problem_folder` -/

structure ScanState where
  files : List FileEntry := []
  logicalBytes : Nat := 0
  allocatedBytes : Nat := 0
  archiveBytes : Nat := 0
  auxiliaryBytes : Nat := 0
  fileCount : Nat := 0
  /-- `inode_paths`; `seen_inodes` has the same keys. -/
  inodePaths : List ((Nat × Nat) × String × String) := []
  deriving DecidableEq, Repr

def isArchive (name : OsName) : Bool :=
  let lower := name.toStringLossy.toList.map Char.toLower
  [".zip", ".tar", ".gz", ".7z"].any fun suffix => suffix.toList.isSuffixOf lower

def scanSymlink (c : Contents Bytes) (st : ScanState) (e : WalkEntry Bytes) (target : OsName) :
    Except AppError ScanState := do
  let relPath ← normalizedRelativePath e.names
  match target.toStr? with
  | none => throw (.specialFile s!"non-UTF-8 symlink target: {relPath}")
  | some target =>
      validateSymlinkTarget relPath target
      let size := c.len (c.textBytes target)
      return { st with
        logicalBytes := st.logicalBytes + size
        allocatedBytes := st.allocatedBytes + e.stat.blocks * 512
        auxiliaryBytes := st.auxiliaryBytes + size
        fileCount := st.fileCount + 1
        files := st.files ++ [{
          path := relPath, sha256 := c.sha256Bytes (c.textBytes target), size := size
          allocatedBytes := e.stat.blocks * 512, dev := e.stat.dev, ino := e.stat.ino
          nlink := e.stat.nlink, mode := e.stat.mode, duplicateOf := none
          symlinkTarget := some target }] }

def regularEntry (e : WalkEntry Bytes) (relPath sha256 : String) (size : Nat)
    (duplicateOf : Option String) : FileEntry where
  path := relPath
  sha256 := sha256
  size := size
  allocatedBytes := e.stat.blocks * 512
  dev := e.stat.dev
  ino := e.stat.ino
  nlink := e.stat.nlink
  mode := e.stat.mode
  duplicateOf := duplicateOf
  symlinkTarget := none

def scanFile (c : Contents Bytes) (st : ScanState) (e : WalkEntry Bytes) (content : Bytes) :
    Except AppError ScanState := do
  let relPath ← normalizedRelativePath e.names
  let size := c.len content
  match st.inodePaths.find? fun i => i.1 = e.stat.inode with
  | some (_, firstPath, firstSha) =>
      return { st with
        fileCount := st.fileCount + 1
        files := st.files ++ [regularEntry e relPath firstSha size (some firstPath)] }
  | none =>
      let sha256 := c.sha256Bytes content
      let archive := e.names.getLast?.any isArchive
      return { st with
        inodePaths := st.inodePaths ++ [(e.stat.inode, relPath, sha256)]
        logicalBytes := st.logicalBytes + size
        allocatedBytes := st.allocatedBytes + e.stat.blocks * 512
        archiveBytes := if archive then st.archiveBytes + size else st.archiveBytes
        auxiliaryBytes := if archive then st.auxiliaryBytes else st.auxiliaryBytes + size
        fileCount := st.fileCount + 1
        files := st.files ++ [regularEntry e relPath sha256 size none] }

/-- One turn of the walk; `folder` is the path of the problem folder. -/
def scanEntry (c : Contents Bytes) (folder : String) (st : ScanState) (e : WalkEntry Bytes) :
    Except AppError ScanState :=
  match e.node with
  | .symlink target => scanSymlink c st e target
  | .dir => .ok st
  | .special =>
      .error (.specialFile (joinPath (folder :: e.names.map OsName.toStringLossy)))
  | .file _ content => scanFile c st e content

def ScanState.toScanResult (code : String) (st : ScanState) : ScanResult where
  code := code
  logicalBytes := st.logicalBytes
  allocatedBytes := st.allocatedBytes
  archiveBytes := st.archiveBytes
  auxiliaryBytes := st.auxiliaryBytes
  fileCount := st.fileCount
  files := st.files

/-- `scan_problem_folder`, with the walk of the folder if it exists. -/
def scanProblemFolder (c : Contents Bytes) (root code : String)
    (folder : Option (List (WalkEntry Bytes))) : Except AppError ScanResult := do
  validateRelativePath code
  match folder with
  | none => throw (.problemFolderMissing code)
  | some walk =>
      let st ← walk.foldlM (scanEntry c s!"{root}/{code}") {}
      return st.toScanResult code

/-! ## The canonical archive -/

/-- `char::is_whitespace`. -/
def isWhitespace (c : Char) : Bool :=
  let n := c.toNat
  (0x9 ≤ n && n ≤ 0xD) || (0x2000 ≤ n && n ≤ 0x200A) ||
    n ∈ [0x20, 0x85, 0xA0, 0x1680, 0x2028, 0x2029, 0x202F, 0x205F, 0x3000]

/-- `str::trim_matches`. -/
def trimMatches (p : Char → Bool) (text : List Char) : List Char :=
  ((text.dropWhile p).reverse.dropWhile p).reverse

/-- The value of a line `archive: …`, without its quotes. -/
def archiveValue (raw : List Char) : Option String :=
  (List.isPrefixOf? "archive:".toList (trimMatches isWhitespace raw)).map fun value =>
    let unquoted := trimMatches (fun c => c.toNat = 0x22) (trimMatches isWhitespace value)
    String.ofList (trimMatches (fun c => c.toNat = 0x27) unquoted)

/-- `parse_init_archive`: the first line with a usable value. -/
def parseInitArchive (initYml : String) : Option String :=
  (initYml.toList.splitOn '\n').findSome? fun raw =>
    (archiveValue raw).bind fun value =>
      match validateRelativePath value with
      | .ok () => some (replaceBackslashes value)
      | .error _ => none

/-- `canonical_download_path_from_folder`; `initYml` is the text of `init.yml` if it can be
read. -/
def canonicalDownloadPath (initYml : Option String) (files : List FileEntry) : Option String :=
  match initYml.bind parseInitArchive with
  | none => none
  | some archive =>
      if files.any fun f => f.path = archive && f.symlinkTarget.isNone then some archive else none

theorem canonicalDownloadPath_eq_some {initYml : Option String} {files : List FileEntry}
    {canonical : String} (h : canonicalDownloadPath initYml files = some canonical) :
    ∃ f ∈ files, f.path = canonical ∧ f.symlinkTarget = none := by
  unfold canonicalDownloadPath at h
  split at h
  · cases h
  · split at h
    · rename_i hany
      cases h
      obtain ⟨f, hf, hpath⟩ := List.any_eq_true.mp hany
      rw [Bool.and_eq_true, decide_eq_true_eq, Option.isNone_iff_eq_none] at hpath
      exact ⟨f, hf, hpath⟩
    · cases h

end ExternalStorage.Model
