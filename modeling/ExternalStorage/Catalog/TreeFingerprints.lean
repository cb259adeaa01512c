import ExternalStorage.Library.Codes
import ExternalStorage.Model.Reconciliation

/-!
# What the fingerprint of a tree stands for

`tree_fingerprint` feeds the entries of the sorted walk to SHA-256 one behind the other: the
name behind its length, nine values of eight bytes, and for a symlink the target behind its
length.  There is no count and nothing between the entries.
-/

namespace ExternalStorage.Catalog

open ExternalStorage.Model Library.Codes

variable {Bytes : Type}

/-! ## Listings -/

/-- What `tree_fingerprint` takes in of an entry. -/
structure EntryListing where
  name : List UInt8
  dev : Nat
  ino : Nat
  mode : Nat
  len : Nat
  blocks : Nat
  mtime : Int
  mtimeNsec : Int
  ctime : Int
  ctimeNsec : Int
  /-- Of a symlink. -/
  target : Option (List UInt8)
  deriving DecidableEq

def entryListing (e : TreeEntry Bytes) : EntryListing where
  name := pathBytes e.entry.names
  dev := e.entry.stat.dev
  ino := e.entry.stat.ino
  mode := e.entry.stat.mode
  len := e.len
  blocks := e.entry.stat.blocks
  mtime := e.mtime
  mtimeNsec := e.mtimeNsec
  ctime := e.ctime
  ctimeNsec := e.ctimeNsec
  target :=
    match e.entry.node with
    | .symlink target => some target.bytes
    | .dir | .file .. | .special => none

/-- The walk, sorted by file name, with the folder itself in front. -/
def sortedTree (tree : Model.Tree Bytes) : List (TreeEntry Bytes) :=
  tree.top :: tree.below.insertionSort fun e e' =>
    e.entry.names.map OsName.bytes ≤ e'.entry.names.map OsName.bytes

def treeListing (tree : Model.Tree Bytes) : List EntryListing := (sortedTree tree).map entryListing

def treeStream (tree : Model.Tree Bytes) : List UInt8 :=
  "problem-tree-v1\x00".toUTF8.toList ++ (sortedTree tree).flatMap TreeEntry.update

theorem treeFingerprint_eq (hash : List UInt8 → String) (tree : Model.Tree Bytes) :
    treeFingerprint hash tree = hash (treeStream tree) :=
  rfl

def isLinkMode (mode : Nat) : Bool := mode &&& 0o170000 = 0o120000

/-- The values are of the types that `MetadataExt` gives them, and the mode tells the links. -/
structure EntryListing.Typed (l : EntryListing) : Prop where
  name : l.name.length < 2 ^ 64
  unsigned : ∀ value ∈ [l.dev, l.ino, l.mode, l.len, l.blocks], value < 2 ^ 64
  signed : ∀ value ∈ [l.mtime, l.mtimeNsec, l.ctime, l.ctimeNsec],
    -2 ^ 63 ≤ value ∧ value < 2 ^ 63
  target : ∀ target ∈ l.target, target.length < 2 ^ 64
  link : l.target.isSome = isLinkMode l.mode

instance (l : EntryListing) : Decidable l.Typed :=
  decidable_of_iff (l.name.length < 2 ^ 64 ∧
      (∀ value ∈ [l.dev, l.ino, l.mode, l.len, l.blocks], value < 2 ^ 64) ∧
      (∀ value ∈ [l.mtime, l.mtimeNsec, l.ctime, l.ctimeNsec],
        -2 ^ 63 ≤ value ∧ value < 2 ^ 63) ∧
      (∀ target ∈ l.target, target.length < 2 ^ 64) ∧ l.target.isSome = isLinkMode l.mode)
    ⟨fun ⟨h₁, h₂, h₃, h₄, h₅⟩ => ⟨h₁, h₂, h₃, h₄, h₅⟩,
      fun ⟨h₁, h₂, h₃, h₄, h₅⟩ => ⟨h₁, h₂, h₃, h₄, h₅⟩⟩

def TypedTree (tree : Model.Tree Bytes) : Prop :=
  ∀ e ∈ tree.top :: tree.below, (entryListing e).Typed

instance (tree : Model.Tree Bytes) : Decidable (TypedTree tree) :=
  inferInstanceAs (Decidable (∀ e ∈ tree.top :: tree.below, (entryListing e).Typed))

/-! ## Words -/

theorem length_leBytes (value : Nat) : (leBytes value).length = 8 := by
  rw [leBytes, List.length_map, List.length_range]

/-- Numbers whose first `n` digits agree are the same up to there. -/
theorem mod_pow_eq_of_digits {b v w n : Nat}
    (h : ∀ i < n, v / b ^ i % b = w / b ^ i % b) : v % b ^ n = w % b ^ n := by
  induction n with
  | zero => rw [Nat.pow_zero, Nat.mod_one, Nat.mod_one]
  | succ n ih =>
      rw [Nat.mod_pow_succ, Nat.mod_pow_succ, ih fun i hi => h i (Nat.lt_succ_of_lt hi),
        h n (Nat.lt_succ_self n)]

theorem leBytes_inj {v w : Nat} (hv : v < 2 ^ 64) (hw : w < 2 ^ 64)
    (h : leBytes v = leBytes w) : v = w := by
  have hdigits : ∀ i < 8, v / 256 ^ i % 256 = w / 256 ^ i % 256 := by
    intro i hi
    have hbyte : UInt8.ofNat (v / 256 ^ i) = UInt8.ofNat (w / 256 ^ i) :=
      List.map_inj_left.mp h i (List.mem_range.mpr hi)
    simpa using congrArg UInt8.toNat hbyte
  have hmod := mod_pow_eq_of_digits hdigits
  rwa [Nat.mod_eq_of_lt (by simpa using hv), Nat.mod_eq_of_lt (by simpa using hw)] at hmod

theorem reads_leBytes {value : Nat} (h : value < 2 ^ 64) :
    Reads anything (· < 2 ^ 64) leBytes value :=
  reads_of_length (fun _ _ => length_leBytes _) (fun _ _ => leBytes_inj) h

theorem asU64_inj {v w : Int} (hv : -2 ^ 63 ≤ v ∧ v < 2 ^ 63) (hw : -2 ^ 63 ≤ w ∧ w < 2 ^ 63)
    (h : asU64 v = asU64 w) : v = w := by
  unfold asU64 at h
  omega

theorem asU64_lt (v : Int) : asU64 v < 2 ^ 64 := by
  unfold asU64
  omega

/-! ## Entries -/

def EntryListing.words (l : EntryListing) : List Nat :=
  [l.dev, l.ino, l.mode, l.len, l.blocks, asU64 l.mtime, asU64 l.mtimeNsec, asU64 l.ctime,
    asU64 l.ctimeNsec]

def EntryListing.bytes (l : EntryListing) : List UInt8 :=
  leBytes l.name.length ++ l.name ++ l.words.flatMap leBytes ++
    match l.target with
    | some target => leBytes target.length ++ target
    | none => []

theorem update_eq_bytes (e : TreeEntry Bytes) : e.update = (entryListing e).bytes := by
  unfold TreeEntry.update EntryListing.bytes entryListing
  cases e.entry.node <;> rfl

def NineWords (words : List Nat) : Prop := words.length = 9 ∧ ∀ value ∈ words, value < 2 ^ 64

theorem EntryListing.Typed.nineWords {l : EntryListing} (h : l.Typed) : NineWords l.words := by
  refine ⟨rfl, ?_⟩
  have hunsigned := h.unsigned
  simp only [List.forall_mem_cons] at hunsigned
  obtain ⟨hdev, hino, hmode, hlen, hblocks, -⟩ := hunsigned
  simp only [words, List.forall_mem_cons]
  exact ⟨hdev, hino, hmode, hlen, hblocks, asU64_lt _, asU64_lt _, asU64_lt _, asU64_lt _, nofun⟩

theorem reads_words {words : List Nat} (h : NineWords words) :
    Reads anything NineWords (fun words => words.flatMap leBytes) words := by
  refine reads_of_length (n := 72) ?_ ?_ h
  · rintro words ⟨hlength, -⟩
    rw [List.length_flatMap, List.map_congr_left fun value _ => length_leBytes value,
      List.map_const', List.sum_replicate_nat, hlength]
  · rintro ws ws' ⟨-, hws⟩ ⟨-, hws'⟩ heq
    refine @flatMap_inj _ _ (· < 2 ^ 64) leBytes ?_ ws ws' ?_ hws' heq
    · intro value _ hnil
      have hlength := length_leBytes value
      rw [hnil] at hlength
      cases hlength
    · exact fun value hvalue => ⟨hws value hvalue, reads_leBytes (hws value hvalue)⟩

theorem eq_of_words {l m : EntryListing} (hl : l.Typed) (hm : m.Typed) (hname : l.name = m.name)
    (hwords : l.words = m.words) (htarget : l.target = m.target) : l = m := by
  have hsigned := hl.signed
  have hsigned' := hm.signed
  simp only [List.forall_mem_cons] at hsigned hsigned'
  simp only [EntryListing.words, List.cons.injEq, and_true] at hwords
  obtain ⟨hdev, hino, hmode, hlen, hblocks, hmtime, hmnsec, hctime, hcnsec⟩ := hwords
  cases l
  cases m
  simp only [EntryListing.mk.injEq]
  exact ⟨hname, hdev, hino, hmode, hlen, hblocks, asU64_inj hsigned.1 hsigned'.1 hmtime,
    asU64_inj hsigned.2.1 hsigned'.2.1 hmnsec, asU64_inj hsigned.2.2.1 hsigned'.2.2.1 hctime,
    asU64_inj hsigned.2.2.2.1 hsigned'.2.2.2.1 hcnsec, htarget⟩

/-- The mode, which comes before the target, tells whether there is one. -/
theorem reads_bytes {l : EntryListing} (hl : l.Typed) :
    Reads anything EntryListing.Typed EntryListing.bytes l := by
  intro m s t hm _ _ heq
  simp only [EntryListing.bytes, List.append_assoc] at heq
  have hread : ∀ {xs ys s t : List UInt8}, xs.length < 2 ^ 64 → ys.length < 2 ^ 64 →
      leBytes xs.length ++ (xs ++ s) = leBytes ys.length ++ (ys ++ t) → xs = ys ∧ s = t := by
    intro xs ys s t hxs hys h
    refine reads_lengthPrefixed (fun _ => reads_leBytes) hxs ys s t hys trivial trivial ?_
    simpa only [List.append_assoc] using h
  obtain ⟨hname, heq⟩ := hread hl.name hm.name heq
  obtain ⟨hwords, heq⟩ :=
    reads_words hl.nineWords m.words _ _ hm.nineWords trivial trivial heq
  have hmode : l.mode = m.mode := by
    simp only [EntryListing.words, List.cons.injEq] at hwords
    exact hwords.2.2.1
  have hlink : l.target.isSome = m.target.isSome := by
    rw [hl.link, hm.link, hmode]
  cases htarget : l.target with
  | none =>
      rw [htarget, Option.isSome_none, eq_comm, Option.isSome_eq_false_iff,
        Option.isNone_iff_eq_none] at hlink
      rw [htarget, hlink] at heq
      exact ⟨eq_of_words hl hm hname hwords (htarget.trans hlink.symm), heq⟩
  | some target =>
      rw [htarget, Option.isSome_some, eq_comm] at hlink
      obtain ⟨target', htarget'⟩ := Option.isSome_iff_exists.mp hlink
      rw [htarget, htarget'] at heq
      simp only [List.append_assoc] at heq
      obtain ⟨hsame, hrest⟩ := hread (hl.target target htarget) (hm.target target' htarget') heq
      have htargets : l.target = m.target := by
        rw [htarget, htarget', hsame]
      exact ⟨eq_of_words hl hm hname hwords htargets, hrest⟩

/-! ## Trees -/

theorem treeStream_eq (tree : Model.Tree Bytes) :
    treeStream tree =
      "problem-tree-v1\x00".toUTF8.toList ++ (treeListing tree).flatMap EntryListing.bytes := by
  rw [treeStream, treeListing, List.flatMap_map]
  congr 2
  funext e
  exact update_eq_bytes e

theorem TypedTree.listing {tree : Model.Tree Bytes} (h : TypedTree tree) :
    ∀ l ∈ treeListing tree, l.Typed := by
  intro l hl
  obtain ⟨e, he, rfl⟩ := List.mem_map.mp hl
  apply h e
  rcases List.mem_cons.mp he with rfl | hbelow
  · exact List.mem_cons_self
  · exact List.mem_cons_of_mem _ ((List.perm_insertionSort _ _).mem_iff.mp hbelow)

/-- The stream determines the listing, and as far as the hash tells two streams apart, so does
the fingerprint. -/
theorem tree_fingerprint_tells_listings {tree tree' : Model.Tree Bytes} (h : TypedTree tree)
    (h' : TypedTree tree') :
    (treeStream tree = treeStream tree' ↔ treeListing tree = treeListing tree') ∧
      ∀ hash : List UInt8 → String,
        (hash (treeStream tree) = hash (treeStream tree') →
          treeStream tree = treeStream tree') →
        (treeFingerprint hash tree = treeFingerprint hash tree' ↔
          treeListing tree = treeListing tree') := by
  have hstream : treeStream tree = treeStream tree' ↔ treeListing tree = treeListing tree' := by
    rw [treeStream_eq, treeStream_eq, List.append_cancel_left_eq]
    constructor
    · refine @flatMap_inj _ _ EntryListing.Typed EntryListing.bytes ?_ _ _ ?_ h'.listing
      · intro l _ hnil
        have hlength := congrArg List.length hnil
        simp only [EntryListing.bytes, List.length_append, length_leBytes,
          List.length_nil] at hlength
        omega
      · exact fun l hl => ⟨h.listing l hl, reads_bytes (h.listing l hl)⟩
    · exact fun hlisting => by rw [hlisting]
  refine ⟨hstream, ?_⟩
  intro hash hcollision
  rw [treeFingerprint_eq, treeFingerprint_eq, ← hstream]
  exact ⟨hcollision, fun heq => by rw [heq]⟩

/-! A folder with a link, walked twice, and with the archive behind the link replaced. -/

def statedEntry (name : List String) (node : Node Unit) (ino mode : Nat) (mtime : Int) :
    TreeEntry Unit :=
  ⟨⟨name.map OsName.ofText, node, ⟨2049, ino, 1, 8, mode⟩⟩, 18, mtime, 0, mtime, 0⟩

def linkedTree (below : List (TreeEntry Unit)) : Model.Tree Unit :=
  ⟨statedEntry [] .dir 10 0o40755 1767225600, below⟩

def archiveEntry (mtime : Int) : TreeEntry Unit :=
  statedEntry ["a.zip"] (.file 11 ()) 11 0o100644 mtime

def linkEntry : TreeEntry Unit :=
  statedEntry ["b"] (.symlink (.ofText "a.zip")) 12 0o120777 1767225600

def spelled (bytes : List UInt8) : String :=
  String.ofList (bytes.map fun byte => Char.ofNat byte.toNat)

theorem spelled_injective : Function.Injective spelled := by
  intro bytes bytes' h
  refine List.map_injective_iff.mpr ?_ (String.ofList_injective h)
  intro byte byte' hchar
  have hvalid : ∀ n < 256, (Char.ofNat n).toNat = n := by
    intro n hn
    have hchar : n.isValidChar := .inl (by omega)
    rw [Char.ofNat, dif_pos hchar]
    rfl
  have hnat := congrArg Char.toNat hchar
  dsimp only at hnat
  rw [hvalid _ byte.toNat_lt, hvalid _ byte'.toNat_lt] at hnat
  exact UInt8.toNat_inj.mp hnat

theorem tree_fingerprint_tells_listings_linked :
    treeListing (linkedTree [linkEntry, archiveEntry 1767225600]) =
        treeListing (linkedTree [archiveEntry 1767225600, linkEntry]) ∧
      treeFingerprint spelled (linkedTree [archiveEntry 1767225600, linkEntry]) ≠
        treeFingerprint spelled (linkedTree [archiveEntry 1767225601, linkEntry]) := by
  have hfirst : TypedTree (linkedTree [linkEntry, archiveEntry 1767225600]) := by
    decide +kernel
  have hsecond : TypedTree (linkedTree [archiveEntry 1767225600, linkEntry]) := by
    decide +kernel
  have htouched : TypedTree (linkedTree [archiveEntry 1767225601, linkEntry]) := by
    decide +kernel
  refine ⟨(tree_fingerprint_tells_listings hfirst hsecond).1.mp (by decide +kernel), ?_⟩
  rw [Ne, (tree_fingerprint_tells_listings hsecond htouched).2 spelled ?_]
  · decide +kernel
  · exact fun h => spelled_injective h

end ExternalStorage.Catalog
