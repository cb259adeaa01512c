import ExternalStorage.Library.Runs
import ExternalStorage.Model.Errors
import Mathlib.Data.List.Induction
import Mathlib.Logic.Function.Basic

/-!
# A hash of a file that others write

`stable_sha256_file` opens the file, looks at its metadata, reads it to its end and looks again.
Between any two of these calls other processes may write files and give the path to another one.
A hash that it returns is that of the open file at the second look, as long as a write moves the
time of a file.
-/

namespace ExternalStorage.Snapshot

open ExternalStorage.Model Library.Runs

/-! ## Statements -/

/-- `mtime` is in nanoseconds. -/
structure Inode where
  content : List UInt8
  mtime : Nat

structure FileMetadata where
  dev : Nat
  ino : Nat
  len : Nat
  mtime : Nat
  mtimeNsec : Nat
  deriving DecidableEq, Repr

structure Disk where
  dev : Nat
  inodes : Nat → Inode
  /-- The file that the path names. -/
  entry : Option Nat
  clock : Nat

def nanosPerSecond : Nat := 1000000000

def Disk.metadata (disk : Disk) (ino : Nat) : FileMetadata where
  dev := disk.dev
  ino := ino
  len := (disk.inodes ino).content.length
  mtime := (disk.inodes ino).mtime / nanosPerSecond
  mtimeNsec := (disk.inodes ino).mtime % nanosPerSecond

def FileMetadata.unchanged (before after : FileMetadata) : Bool :=
  before.dev = after.dev && before.ino = after.ino && before.len = after.len &&
    before.mtime = after.mtime && before.mtimeNsec = after.mtimeNsec

/-- The point the loop has reached; a file stays open through a turn. -/
inductive HashPhase where
  | opening
  | opened (ino : Nat)
  | reading (ino : Nat) (before : FileMetadata) (done : List UInt8)
  | hashed (ino : Nat) (before : FileMetadata) (hash : String)
  | sleeping
  | returned (result : Except AppError String)

structure Hashing where
  disk : Disk
  /-- The turns of `0..=retries` to come. -/
  turns : Nat
  phase : HashPhase

def Hashing.at (s : Hashing) (phase : HashPhase) : Hashing := { s with phase := phase }

inductive HashOp where
  | open
  | metadata
  /-- A read fills part of the buffer. -/
  | read (n : Nat)
  | wake
  | fail (detail : String)
  /-- Another process writes a file, or truncates it. -/
  | write (ino : Nat) (content : List UInt8)
  /-- Another process renames a file to the path, or removes it. -/
  | rename (entry : Option Nat)
  | tick (elapsed : Nat)

section Step

variable (sha256 : List UInt8 → String) (path : String)

def hashStep (s : Hashing) (op : HashOp) : Option Hashing :=
  match op, s.phase with
  | .open, .opening =>
      match s.turns, s.disk.entry with
      | turns + 1, some ino => some { s with turns := turns, phase := .opened ino }
      | _ + 1, none => some (s.at (.returned (.error (.io "No such file or directory"))))
      | 0, _ => none
  | .metadata, .opened ino => some (s.at (.reading ino (s.disk.metadata ino) []))
  | .read n, .reading ino before done =>
      if (s.disk.inodes ino).content.length ≤ done.length then
        some (s.at (.hashed ino before (sha256 done)))
      else if 0 < n ∧ n ≤ 1024 * 1024 then
        some (s.at (.reading ino before
          (done ++ ((s.disk.inodes ino).content.drop done.length).take n)))
      else
        none
  | .metadata, .hashed ino before hash =>
      if before.unchanged (s.disk.metadata ino) then
        some (s.at (.returned (.ok hash)))
      else
        some (s.at .sleeping)
  | .wake, .sleeping =>
      some (s.at (if s.turns = 0 then .returned (.error (.fileChurn path)) else .opening))
  | .fail _, .returned _ => none
  | .fail detail, _ => some (s.at (.returned (.error (.io detail))))
  | .write ino content, _ =>
      some { s with
        disk.inodes := Function.update s.disk.inodes ino ⟨content, s.disk.clock⟩ }
  | .rename entry, _ => some { s with disk.entry := entry }
  | .tick elapsed, _ => some { s with disk.clock := s.disk.clock + elapsed }
  | _, _ => none

end Step

/-- Everything that `hashStep` can do. -/
inductive HashStep (sha256 : List UInt8 → String) (path : String) (s : Hashing) :
    HashOp → Hashing → Prop
  | opened {turns ino : Nat} : s.phase = .opening → s.turns = turns + 1 →
      HashStep sha256 path s .open { s with turns := turns, phase := .opened ino }
  | looked {ino : Nat} : s.phase = .opened ino →
      HashStep sha256 path s .metadata (s.at (.reading ino (s.disk.metadata ino) []))
  | read {n ino : Nat} {before : FileMetadata} {done : List UInt8} :
      s.phase = .reading ino before done →
        HashStep sha256 path s (.read n) (s.at (.reading ino before
          (done ++ ((s.disk.inodes ino).content.drop done.length).take n)))
  | ended {n ino : Nat} {before : FileMetadata} {done : List UInt8} :
      s.phase = .reading ino before done → (s.disk.inodes ino).content.length ≤ done.length →
        HashStep sha256 path s (.read n) (s.at (.hashed ino before (sha256 done)))
  | unchanged {ino : Nat} {before : FileMetadata} {hash : String} :
      s.phase = .hashed ino before hash → before.unchanged (s.disk.metadata ino) = true →
        HashStep sha256 path s .metadata (s.at (.returned (.ok hash)))
  | changed {ino : Nat} {before : FileMetadata} {hash : String} :
      s.phase = .hashed ino before hash → before ≠ s.disk.metadata ino →
        HashStep sha256 path s .metadata (s.at .sleeping)
  | woke : s.phase = .sleeping → s.turns ≠ 0 → HashStep sha256 path s .wake (s.at .opening)
  | gaveUp : s.phase = .sleeping → s.turns = 0 →
      HashStep sha256 path s .wake (s.at (.returned (.error (.fileChurn path))))
  | failed {op : HashOp} {detail : String} :
      HashStep sha256 path s op (s.at (.returned (.error (.io detail))))
  | write {ino : Nat} {content : List UInt8} :
      HashStep sha256 path s (.write ino content)
        { s with disk.inodes := Function.update s.disk.inodes ino ⟨content, s.disk.clock⟩ }
  | rename {entry : Option Nat} :
      HashStep sha256 path s (.rename entry) { s with disk.entry := entry }
  | tick {elapsed : Nat} :
      HashStep sha256 path s (.tick elapsed) { s with disk.clock := s.disk.clock + elapsed }

theorem metadata_unchanged (m : FileMetadata) : m.unchanged m = true := by
  simp [FileMetadata.unchanged]

theorem hashStep_cases {sha256 : List UInt8 → String} {path : String} {s t : Hashing}
    {op : HashOp} (h : hashStep sha256 path s op = some t) : HashStep sha256 path s op t := by
  unfold hashStep at h
  split at h
  · rename_i hphase
    split at h
    · rename_i hturns _
      cases h
      exact .opened hphase hturns
    · cases h
      exact .failed
    · cases h
  · rename_i hphase
    cases h
    exact .looked hphase
  · rename_i hphase
    split at h
    · rename_i hend
      cases h
      exact .ended hphase hend
    · split at h
      · cases h
        exact .read hphase
      · cases h
  · rename_i hphase
    split at h
    · rename_i hlook
      cases h
      exact .unchanged hphase hlook
    · rename_i hlook
      cases h
      refine .changed hphase ?_
      rintro rfl
      exact hlook (metadata_unchanged _)
  · rename_i hphase
    cases h
    split
    · rename_i hlast
      exact .gaveUp hphase hlast
    · rename_i hmore
      exact .woke hphase hmore
  · cases h
  · cases h
    exact .failed
  · cases h
    exact .write
  · cases h
    exact .rename
  · cases h
    exact .tick
  · cases h

/-- The clock has moved on since the file was written. -/
def LaterWrite (s : Hashing) (op : HashOp) (_ : Hashing) : Prop :=
  match op with
  | .write ino _ => (s.disk.inodes ino).mtime < s.disk.clock
  | _ => True

instance (s : Hashing) (op : HashOp) (t : Hashing) : Decidable (LaterWrite s op t) :=
  match op with
  | .write _ _ => Nat.decLt _ _
  | .open | .metadata | .read _ | .wake | .fail _ | .rename _ | .tick _ => isTrue trivial

/-! ## Since the first look -/

/-- `before` shows the time that a file had once; the file is now as `P` says, unless it has been
written since. -/
def Since (disk : Disk) (ino : Nat) (before : FileMetadata) (P : List UInt8 → Prop) : Prop :=
  ∃ mtime, before.mtime = mtime / nanosPerSecond ∧ before.mtimeNsec = mtime % nanosPerSecond ∧
    mtime ≤ (disk.inodes ino).mtime ∧
    (mtime = (disk.inodes ino).mtime → P (disk.inodes ino).content)

section Since

variable {disk : Disk} {ino : Nat} {before : FileMetadata} {P Q : List UInt8 → Prop}

theorem Since.mono (h : Since disk ino before P)
    (hPQ : P (disk.inodes ino).content → Q (disk.inodes ino).content) :
    Since disk ino before Q := by
  obtain ⟨mtime, hmtime, hnsec, hle, hP⟩ := h
  exact ⟨mtime, hmtime, hnsec, hle, fun heq => hPQ (hP heq)⟩

theorem since_metadata (hP : P (disk.inodes ino).content) :
    Since disk ino (disk.metadata ino) P :=
  ⟨(disk.inodes ino).mtime, rfl, rfl, Nat.le_refl _, fun _ => hP⟩

theorem Since.write (h : Since disk ino before P) {ino' : Nat} (content : List UInt8)
    (hlater : (disk.inodes ino').mtime < disk.clock) :
    Since { disk with inodes := Function.update disk.inodes ino' ⟨content, disk.clock⟩ } ino
      before P := by
  obtain ⟨mtime, hmtime, hnsec, hle, hP⟩ := h
  refine ⟨mtime, hmtime, hnsec, ?_, ?_⟩
  all_goals
    by_cases hsame : ino = ino'
    · subst hsame
      simp only [Function.update_self]
      omega
    · simp only [Function.update_of_ne hsame]
      first | exact hle | exact hP

theorem Since.look (h : Since disk ino before P)
    (hlook : before.unchanged (disk.metadata ino) = true) : P (disk.inodes ino).content := by
  obtain ⟨mtime, hmtime, hnsec, -, hP⟩ := h
  simp only [FileMetadata.unchanged, Bool.and_eq_true, decide_eq_true_eq] at hlook
  obtain ⟨⟨-, hmtime'⟩, hnsec'⟩ := hlook
  rw [hmtime] at hmtime'
  rw [hnsec] at hnsec'
  refine hP ?_
  calc mtime = nanosPerSecond * (mtime / nanosPerSecond) + mtime % nanosPerSecond :=
        (Nat.div_add_mod _ _).symm
    _ = nanosPerSecond * ((disk.inodes ino).mtime / nanosPerSecond) +
          (disk.inodes ino).mtime % nanosPerSecond := by rw [hmtime', hnsec']; rfl
    _ = (disk.inodes ino).mtime := Nat.div_add_mod _ _

end Since

/-! ## A turn -/

section Turn

variable {sha256 : List UInt8 → String} {path : String} {s t : Hashing} {op : HashOp}

/-- What the loop has read is the beginning of the open file, unless the file has been written. -/
def Current (sha256 : List UInt8 → String) (s : Hashing) : Prop :=
  match s.phase with
  | .reading ino before done => Since s.disk ino before fun content => done <+: content
  | .hashed ino before hash => Since s.disk ino before fun content => hash = sha256 content
  | _ => True

theorem Current.others {disk : Disk} (h : Current sha256 s)
    (hsince : ∀ ino before P, Since s.disk ino before P → Since disk ino before P) :
    Current sha256 { s with disk := disk } := by
  unfold Current at h ⊢
  cases hphase : s.phase with
  | reading ino before done =>
      rw [hphase] at h
      exact hsince _ _ _ h
  | hashed ino before hash =>
      rw [hphase] at h
      exact hsince _ _ _ h
  | _ => trivial

theorem Current.step (h : Current sha256 s) (hlater : LaterWrite s op t)
    (hstep : hashStep sha256 path s op = some t) : Current sha256 t := by
  cases hashStep_cases hstep with
  | opened | unchanged | changed | woke | gaveUp | failed => trivial
  | looked => exact since_metadata List.nil_prefix
  | @read n ino before done hphase =>
      rw [Current, hphase] at h
      change Since s.disk ino before fun content =>
        done ++ ((s.disk.inodes ino).content.drop done.length).take n <+: content
      refine Since.mono h fun hpre => ?_
      obtain ⟨rest, hrest⟩ := hpre
      rw [← hrest, List.drop_left]
      exact (List.prefix_append_right_inj done).mpr (List.take_prefix n rest)
  | @ended n ino before done hphase hend =>
      rw [Current, hphase] at h
      change Since s.disk ino before fun content => sha256 done = sha256 content
      refine Since.mono h fun hpre => ?_
      rw [List.IsPrefix.eq_of_length_le hpre hend]
  | write => exact h.others fun _ _ _ hsince => hsince.write _ hlater
  | rename | tick => exact h.others fun _ _ _ hsince => hsince

end Turn

/-! ## Turns without a hash -/

section Churn

variable {sha256 : List UInt8 → String} {path : String} {retries : Nat} {start s t : Hashing}
  {ops : List HashOp} {op : HashOp} {ino : Nat} {before : FileMetadata}

/-- In the turn that leaves `turns` to come, the open file is written between the two looks. -/
def ChurnedTurn (sha256 : List UInt8 → String) (path : String) (start : Hashing)
    (ops : List HashOp) (turns : Nat) : Prop :=
  ∃ opening between rest u v ino before hash,
    ops = opening ++ .metadata :: between ++ .metadata :: rest ∧
      exec (hashStep sha256 path) start opening = some u ∧
        exec (hashStep sha256 path) u (.metadata :: between) = some v ∧
          u.phase = .opened ino ∧ v.phase = .hashed ino before hash ∧
            u.turns = turns ∧ v.turns = turns ∧ ∃ content, .write ino content ∈ between

theorem ChurnedTurn.snoc {turns : Nat} (h : ChurnedTurn sha256 path start ops turns)
    (op : HashOp) : ChurnedTurn sha256 path start (ops ++ [op]) turns := by
  obtain ⟨opening, between, rest, u, v, ino, before, hash, rfl, hturn⟩ := h
  exact ⟨opening, between, rest ++ [op], u, v, ino, before, hash, by simp, hturn⟩

/-- The present turn since its first look, which showed `before`. -/
def Looked (sha256 : List UInt8 → String) (path : String) (start : Hashing) (ops : List HashOp)
    (s : Hashing) (ino : Nat) (before : FileMetadata) : Prop :=
  ∃ opening between u, ops = opening ++ .metadata :: between ∧
    exec (hashStep sha256 path) start opening = some u ∧
      exec (hashStep sha256 path) u (.metadata :: between) = some s ∧
        u.phase = .opened ino ∧ u.turns = s.turns ∧
          (before ≠ s.disk.metadata ino → ∃ content, .write ino content ∈ between)

theorem Looked.step (h : Looked sha256 path start ops s ino before)
    (hstep : hashStep sha256 path s op = some t) (hturns : t.turns = s.turns)
    (hdisk : t.disk.metadata ino = s.disk.metadata ino ∨ ∃ content, op = .write ino content) :
    Looked sha256 path start (ops ++ [op]) t ino before := by
  obtain ⟨opening, between, u, rfl, hopening, hbetween, hopened, huturns, hwritten⟩ := h
  refine ⟨opening, between ++ [op], u, by simp, hopening, ?_, hopened, huturns.trans hturns.symm,
    fun hne => ?_⟩
  · rw [← List.cons_append]
    exact exec_append_eq_some.mpr ⟨s, hbetween, exec_cons_eq_some.mpr ⟨t, hstep, rfl⟩⟩
  · rcases hdisk with hsame | ⟨content, rfl⟩
    · rw [hsame] at hne
      obtain ⟨content, hmem⟩ := hwritten hne
      exact ⟨content, List.mem_append_left _ hmem⟩
    · exact ⟨content, List.mem_append_right _ (List.mem_singleton.mpr rfl)⟩

theorem Looked.churned (h : Looked sha256 path start ops s ino before) {hash : String}
    (hphase : s.phase = .hashed ino before hash) (hne : before ≠ s.disk.metadata ino) :
    ChurnedTurn sha256 path start (ops ++ [.metadata]) s.turns := by
  obtain ⟨opening, between, u, rfl, hopening, hbetween, hopened, huturns, hwritten⟩ := h
  exact ⟨opening, between, [], u, s, ino, before, hash, rfl, hopening, hbetween, hopened, hphase,
    huturns, rfl, hwritten hne⟩

def ChurnedFrom (sha256 : List UInt8 → String) (path : String) (retries : Nat) (start : Hashing)
    (ops : List HashOp) (turns : Nat) : Prop :=
  ∀ k, turns ≤ k → k ≤ retries → ChurnedTurn sha256 path start ops k

theorem ChurnedFrom.snoc {turns : Nat} (h : ChurnedFrom sha256 path retries start ops turns)
    (op : HashOp) : ChurnedFrom sha256 path retries start (ops ++ [op]) turns :=
  fun k hle hk => (h k hle hk).snoc op

def Churning (sha256 : List UInt8 → String) (path : String) (retries : Nat) (start : Hashing)
    (ops : List HashOp) (s : Hashing) : Prop :=
  match s.phase with
  | .opening | .sleeping => ChurnedFrom sha256 path retries start ops s.turns
  | .opened _ => ChurnedFrom sha256 path retries start ops (s.turns + 1)
  | .reading ino before _ | .hashed ino before _ =>
      ChurnedFrom sha256 path retries start ops (s.turns + 1) ∧
        Looked sha256 path start ops s ino before
  | .returned (.error (.fileChurn p)) => p = path ∧ ChurnedFrom sha256 path retries start ops 0
  | .returned _ => True

theorem Churning.others {disk : Disk} (h : Churning sha256 path retries start ops s)
    (hstep : hashStep sha256 path s op = some { s with disk := disk })
    (hdisk : ∀ ino, disk.metadata ino = s.disk.metadata ino ∨ ∃ content, op = .write ino content) :
    Churning sha256 path retries start (ops ++ [op]) { s with disk := disk } := by
  unfold Churning at h ⊢
  cases hphase : s.phase with
  | opening | sleeping | opened ino =>
      rw [hphase] at h
      exact h.snoc op
  | reading ino before done | hashed ino before hash =>
      rw [hphase] at h hstep
      exact ⟨h.1.snoc op, h.2.step hstep rfl (hdisk ino)⟩
  | returned result =>
      rw [hphase] at h
      cases result with
      | ok hash => trivial
      | error err =>
          cases err with
          | fileChurn p => exact ⟨h.1, h.2.snoc op⟩
          | _ => trivial

theorem Churning.step (h : Churning sha256 path retries start ops s)
    (hexec : exec (hashStep sha256 path) start ops = some s)
    (hstep : hashStep sha256 path s op = some t) :
    Churning sha256 path retries start (ops ++ [op]) t := by
  cases hashStep_cases hstep with
  | opened hphase hturns =>
      rw [Churning, hphase, hturns] at h
      exact h.snoc _
  | looked hphase =>
      rw [Churning, hphase] at h
      exact ⟨h.snoc _, ops, [], s, rfl, hexec, exec_cons_eq_some.mpr ⟨_, hstep, rfl⟩, hphase, rfl,
        fun hne => absurd rfl hne⟩
  | read hphase | ended hphase =>
      rw [Churning, hphase] at h
      exact ⟨h.1.snoc _, h.2.step hstep rfl (.inl rfl)⟩
  | unchanged | failed => trivial
  | changed hphase hne =>
      rw [Churning, hphase] at h
      intro k hle hk
      rcases Nat.eq_or_lt_of_le hle with rfl | hlt
      · exact h.2.churned hphase hne
      · exact (h.1 k hlt hk).snoc _
  | woke hphase =>
      rw [Churning, hphase] at h
      exact h.snoc _
  | gaveUp hphase hlast =>
      rw [Churning, hphase, hlast] at h
      exact ⟨rfl, h.snoc _⟩
  | @write ino' content =>
      refine h.others hstep fun ino => ?_
      by_cases hsame : ino = ino'
      · exact .inr ⟨content, by rw [hsame]⟩
      · exact .inl (by simp only [Disk.metadata, Function.update_of_ne hsame])
  | rename | tick => exact h.others hstep fun _ => .inl rfl

theorem Churning.run {disk : Disk}
    (hexec : exec (hashStep sha256 path) ⟨disk, retries + 1, .opening⟩ ops = some s) :
    Churning sha256 path retries ⟨disk, retries + 1, .opening⟩ ops s := by
  induction ops using List.reverseRecOn generalizing s with
  | nil =>
      cases hexec
      intro k hle hk
      exact absurd (Nat.lt_of_succ_le (Nat.le_trans hle hk)) (Nat.lt_irrefl _)
  | append_singleton ops op ih =>
      obtain ⟨u, hu, hstep⟩ := exec_append_eq_some.mp hexec
      obtain ⟨t, ht, hlast⟩ := exec_cons_eq_some.mp hstep
      cases hlast
      exact (ih hu).step hu ht

end Churn

/-! ## A run -/

section Run

variable {sha256 : List UInt8 → String} {path : String} {s t : Hashing} {ops : List HashOp}

theorem looked_of_returned {op : HashOp} {hash : String}
    (hopen : ∀ result, s.phase ≠ .returned result)
    (hstep : hashStep sha256 path s op = some t) (hreturned : t.phase = .returned (.ok hash)) :
    ∃ ino before, s.phase = .hashed ino before hash ∧
      before.unchanged (s.disk.metadata ino) = true := by
  cases hashStep_cases hstep with
  | opened | looked | read | ended | changed | woke | gaveUp | failed => cases hreturned
  | @unchanged ino before hash' hphase hlook =>
      cases hreturned
      exact ⟨ino, before, hphase, hlook⟩
  | write | rename | tick => exact absurd hreturned (hopen _)

/-- As long as every write moves the time of its file, a hash is that of the whole file that is open
at the moment it is returned.  `FileChurn` says that in each of the turns the file that was open has
been written between the two looks at it. -/
theorem stable_hash_of_open_file {disk : Disk} {retries : Nat}
    (hexec : exec (hashStep sha256 path) ⟨disk, retries + 1, .opening⟩ ops = some s) :
    (EveryStep (hashStep sha256 path) LaterWrite ⟨disk, retries + 1, .opening⟩ ops →
      ∀ op t hash, (∀ result, s.phase ≠ .returned result) →
        hashStep sha256 path s op = some t → t.phase = .returned (.ok hash) →
          ∃ ino before, s.phase = .hashed ino before hash ∧
            hash = sha256 (s.disk.inodes ino).content) ∧
      ∀ p, s.phase = .returned (.error (.fileChurn p)) →
        p = path ∧ ∀ turns, turns ≤ retries →
          ChurnedTurn sha256 path ⟨disk, retries + 1, .opening⟩ ops turns := by
  constructor
  · intro hlater op t hash hopen hstep hreturned
    obtain ⟨ino, before, hphase, hlook⟩ := looked_of_returned hopen hstep hreturned
    have hstart : Current sha256 ⟨disk, retries + 1, .opening⟩ := trivial
    have hcurrent : Current sha256 s :=
      exec_invariant (fun _ _ _ hI hC hu => hI.step hC hu) hstart hlater hexec
    rw [Current, hphase] at hcurrent
    exact ⟨ino, before, hphase, hcurrent.look hlook⟩
  · intro p hphase
    have hrun := Churning.run hexec
    rw [Churning, hphase] at hrun
    exact ⟨hrun.1, fun turns hle => hrun.2 turns (Nat.zero_le _) hle⟩

end Run

/-! ### A file of two bytes -/

def smallDisk : Disk := ⟨1, fun _ => ⟨[1, 1], 0⟩, some 7, 5⟩

/-- Tells the two contents that a writer gives the file from what mixes them. -/
def smallSha (content : List UInt8) : String :=
  if content = [1, 1] then "first" else if content = [2, 2] then "second" else "torn"

/-- The file is written between the two reads of the first turn. -/
def secondTurn : List HashOp :=
  [.open, .metadata, .read 1, .write 7 [2, 2], .read 1, .read 1, .metadata, .wake, .open,
    .metadata, .read 2, .read 2]

def lookedAt : Hashing :=
  (exec (hashStep smallSha "data") ⟨smallDisk, 3, .opening⟩ secondTurn).getD
    ⟨smallDisk, 3, .opening⟩

theorem stable_hash_of_open_file_sample :
    ∃ ino before, lookedAt.phase = .hashed ino before "second" ∧
      "second" = smallSha (lookedAt.disk.inodes ino).content := by
  have hexec : exec (hashStep smallSha "data") ⟨smallDisk, 3, .opening⟩ secondTurn =
      some lookedAt := rfl
  have hlater : EveryStep (hashStep smallSha "data") LaterWrite ⟨smallDisk, 3, .opening⟩
      secondTurn := by decide
  exact (@stable_hash_of_open_file smallSha "data" lookedAt secondTurn smallDisk 2 hexec).1 hlater
    .metadata _ "second" (fun result h => by cases h) rfl rfl

/-- A write within the tick of the last one is not seen. -/
theorem torn_hash_of_same_tick :
    ∃ s, exec (hashStep smallSha "data") ⟨{ smallDisk with clock := 0 }, 3, .opening⟩
        [.open, .metadata, .read 1, .write 7 [2, 2], .read 1, .read 1, .metadata] = some s ∧
      s.phase = .returned (.ok "torn") :=
  ⟨_, rfl, rfl⟩

end ExternalStorage.Snapshot
