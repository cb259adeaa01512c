import ExternalStorage.Library.Runs
import ExternalStorage.Publication.Machine

/-!
# What a failed restore leaves behind

`restore_snapshot` fills a staging directory beside the folder, renames a folder that is there
away, and renames the staging directory to it.  Some of its error exits remove what it has
made, the others are a bare `?`.
-/

namespace ExternalStorage.Publication

open ExternalStorage.Model Library.Runs Library.Table

variable {Bytes : Type}

/-! ## `restore_snapshot`, call by call -/

def oldName (q : RestoreRequest) (id : String) : String := s!".{q.fileName}.old.{id}"

/-- How far the publication of a complete staging directory has come. -/
inductive PublishPoint where
  | staged
  /-- `_file_lock` is held. -/
  | locked
  /-- The transaction holds the advisory lock of the problem. -/
  | begun
  | fenced
  /-- The READY row is selected. -/
  | found
  /-- There is a folder, and the problem is not dirty. -/
  | clean
  | scanned (scan : ScanResult)
  /-- Nothing stands in the way of the renames. -/
  | replaceable
  deriving DecidableEq

inductive CallPhase where
  | called
  | fenced
  | resolved (generation : Int)
  | fetched (generation : Int) (manifest : Manifest)
  | materializing (generation : Int) (manifest : Manifest) (staging : String)
  | publishing (generation : Int) (staging : String) (point : PublishPoint)
  | moved (staging : String) (old : Option String)
  | published (old : Option String)
  | committed (old : Option String)
  /-- The second rename has failed. -/
  | puttingBack (staging old : String) (err : AppError)
  | discarding (staging : String) (err : AppError)
  | returned (result : Except AppError Unit)
  deriving DecidableEq

structure RestoreCall (Bytes : Type) where
  db : Database
  /-- What stands in `dest.parent()`. -/
  parent : String → Option (Folder Bytes)
  /-- The names that the call has given to directories. -/
  made : List String
  phase : CallPhase

inductive CallEvent (Bytes : Type) where
  /-- The next call returns. -/
  | next
  | fetch (objects : String → Option Bytes)
  | makeStaging (id : String)
  | materialize (objects : String → Option Bytes) (folder : Folder Bytes)
  | moveAside (id : String)
  | commit (now : Timestamp)
  /-- The next call returns an error of the file system, the database or the store. -/
  | fail (err : AppError)
  /-- A file below the staging directory is written, or removed. -/
  | write (folder : Folder Bytes)
  /-- Other sessions write the database. -/
  | other (db : Database)
  /-- Other calls write beside the folder. -/
  | beside (name : String) (entry : Option (Folder Bytes))

def RestoreCall.at (s : RestoreCall Bytes) (phase : CallPhase) : RestoreCall Bytes :=
  { s with phase := phase }

def RestoreCall.put (s : RestoreCall Bytes) (name : String) (entry : Option (Folder Bytes)) :
    RestoreCall Bytes :=
  { s with parent := Function.update s.parent name entry }

def RestoreCall.rename (s : RestoreCall Bytes) (source target : String) : RestoreCall Bytes :=
  (s.put target (s.parent source)).put source none

/-- `?` on a check. -/
def RestoreCall.check {α : Type} (s : RestoreCall Bytes) (x : Except AppError α)
    (next : α → CallPhase) : RestoreCall Bytes :=
  match x with
  | .ok a => s.at (next a)
  | .error e => s.at (.returned (.error e))

def RestoreCall.checkOr {α : Type} (s : RestoreCall Bytes) (staging : String)
    (x : Except AppError α) (next : α → CallPhase) : RestoreCall Bytes :=
  match x with
  | .ok a => s.at (next a)
  | .error e => s.at (.discarding staging e)

def emptyFolder : Folder Bytes := ⟨[], nofun⟩

/-- `fetch_one` of the dirty flag. -/
def dirtyFlag (db : Database) (problemId : String) : Except AppError Bool :=
  match db.problems.find? fun p => p.externalId = problemId with
  | some p => .ok p.dirty
  | none => .error
      (.database "no rows returned by a query that expected to return at least one row")

def scanDestination (site : Site Bytes) (q : RestoreRequest) (s : RestoreCall Bytes) :
    Except AppError ScanResult :=
  scanProblemFolder site.contents site.root q.fileName ((s.parent q.fileName).map Folder.walk)

def publishNext (site : Site Bytes) (q : RestoreRequest) (s : RestoreCall Bytes)
    (generation : Int) (staging : String) (point : PublishPoint) : Option (RestoreCall Bytes) :=
  let on := CallPhase.publishing generation staging
  match point with
  | .staged => some (s.at (on .locked))
  | .locked => some (s.at (on .begun))
  | .begun =>
      some (s.check (ensureLatestFencing s.db.jobs q.problemId q.fencingToken) fun _ => on .fenced)
  | .fenced => some (s.checkOr staging (restoreReady s.db q generation) fun _ => on .found)
  | .found =>
      match s.parent q.fileName with
      | none => some (s.at (on .replaceable))
      | some _ =>
          match dirtyFlag s.db q.problemId with
          | .error e => some (s.at (.returned (.error e)))
          | .ok dirty => some (s.checkOr staging (refuseIf dirty (.fileChurn q.problemId)) fun _ =>
              on .clean)
  | .clean => some (s.check (scanDestination site q s) fun scan => on (.scanned scan))
  | .scanned scan =>
      some (s.checkOr staging (restoreMatches s.db q generation scan) fun _ => on .replaceable)
  | .replaceable => none

def CallPhase.failed (err : AppError) : CallPhase → Option CallPhase
  | .materializing _ _ staging => some (.discarding staging err)
  | .moved staging none => some (.discarding staging err)
  | .moved staging (some old) => some (.puttingBack staging old err)
  -- `let _ =`
  | .puttingBack staging _ first => some (.discarding staging first)
  | .discarding _ first => some (.returned (.error first))
  | .committed _ => some (.returned (.ok ()))
  | .returned _ => none
  | _ => some (.returned (.error err))

def restoreNext (site : Site Bytes) (q : RestoreRequest) (s : RestoreCall Bytes) :
    Option (RestoreCall Bytes) :=
  match s.phase with
  | .called =>
      some (s.check (ensureLatestFencing s.db.jobs q.problemId q.fencingToken) fun _ => .fenced)
  | .fenced => some (s.check (resolveReadyGeneration s.db q.problemId q.generation) .resolved)
  | .publishing generation staging point => publishNext site q s generation staging point
  | .moved staging old => some ((s.rename staging q.fileName).at (.published old))
  | .committed none => some (s.at (.returned (.ok ())))
  | .committed (some old) => some ((s.put old none).at (.returned (.ok ())))
  | .puttingBack staging old err => some ((s.rename old q.fileName).at (.discarding staging err))
  | .discarding staging err => some ((s.put staging none).at (.returned (.error err)))
  | _ => none

def restoreStep [DecidableEq Bytes] (site : Site Bytes) (q : RestoreRequest)
    (s : RestoreCall Bytes) : CallEvent Bytes → Option (RestoreCall Bytes)
  | .next => restoreNext site q s
  | .fetch objects =>
      match s.phase with
      | .resolved generation =>
          some (s.check (do
            let manifest ← fetchManifest site.contents site.fromSlice objects q.problemId generation
            validateRelativePath q.fileName
            return manifest) (.fetched generation))
      | _ => none
  | .makeStaging id =>
      match s.phase with
      | .fetched generation manifest =>
          let staging := stagingName q id
          if fits site.root (q.beside staging) = false then
            some (s.at (.returned (.error nameTooLong)))
          -- A new uuid names nothing yet.
          else if (s.parent staging).isNone then
            some { s.put staging (some emptyFolder) with
              made := [staging], phase := .materializing generation manifest staging }
          else
            none
      | _ => none
  | .materialize objects folder =>
      match s.phase with
      | .materializing generation manifest staging =>
          match materializeManifestFiles site.contents objects manifest
              (q.pathBeside site.root staging) with
          | .error e => some (s.at (.discarding staging e))
          | .ok files =>
              if isStaged files folder then
                some ((s.put staging (some folder)).at (.publishing generation staging .staged))
              else
                none
      | _ => none
  | .moveAside id =>
      match s.phase with
      | .publishing _ staging .replaceable =>
          match s.parent q.fileName with
          | none => some (s.at (.moved staging none))
          | some _ =>
              let old := oldName q id
              if (s.parent old).isNone then
                some { s.rename q.fileName old with
                  made := old :: s.made, phase := .moved staging (some old) }
              else
                none
      | _ => none
  | .commit now =>
      match s.phase with
      | .published old => some { s with db := restored now q s.db, phase := .committed old }
      | _ => none
  | .fail err => (s.phase.failed err).map s.at
  | .write folder =>
      match s.phase with
      | .materializing _ _ staging | .discarding staging _ => some (s.put staging (some folder))
      | _ => none
  | .other db => some { s with db := db }
  | .beside name entry =>
      if name = q.fileName ∨ name ∈ s.made then none else some (s.put name entry)

/-! ## Statements -/

def Called (s : RestoreCall Bytes) : Prop := s.phase = .called ∧ s.made = []

/-- The folder is as it was, and nothing that the call has made is left. -/
def LeftAlone (q : RestoreRequest) (before after : RestoreCall Bytes) : Prop :=
  after.parent q.fileName = before.parent q.fileName ∧
    ∀ name ∈ after.made, after.parent name = none

/-- A problem whose row is missing, so that its dirty flag cannot be read. -/
def Unlisted (db : Database) (problemId : String) : Prop :=
  ∀ p ∈ db.problems, p.externalId ≠ problemId

/-- The exits that leave a directory behind: those between the staging directory and the second
rename that are a bare `?`, those after it, and a clean-up that fails itself. -/
def Abandons (site : Site Bytes) (q : RestoreRequest) (s : RestoreCall Bytes) :
    CallEvent Bytes → Prop
  | .next =>
      match s.phase with
      | .publishing _ _ .begun =>
          ∀ newest ∈ latestFencingToken s.db.jobs q.problemId, newest > q.fencingToken
      | .publishing _ _ .found => (s.parent q.fileName).isSome ∧ Unlisted s.db q.problemId
      | .publishing _ _ .clean => (scanDestination site q s).toOption = none
      | _ => False
  | .fail _ =>
      match s.phase with
      | .publishing .. | .published _ | .puttingBack .. | .discarding .. => True
      | _ => False
  | _ => False

/-! ## The directory of the folder -/

section Parent

variable {s : RestoreCall Bytes} {name other source target : String}
  {entry : Option (Folder Bytes)}

theorem put_self : (s.put name entry).parent name = entry :=
  Function.update_self (β := fun _ => Option (Folder Bytes)) name entry s.parent

theorem put_other (h : other ≠ name) : (s.put name entry).parent other = s.parent other :=
  Function.update_of_ne (β := fun _ => Option (Folder Bytes)) h entry s.parent

@[simp] theorem put_phase : (s.put name entry).phase = s.phase := rfl

theorem rename_source : (s.rename source target).parent source = none :=
  put_self

theorem rename_target (h : source ≠ target) :
    (s.rename source target).parent target = s.parent source := by
  rw [RestoreCall.rename, put_other h.symm, put_self]

theorem rename_other (hsource : other ≠ source) (htarget : other ≠ target) :
    (s.rename source target).parent other = s.parent other := by
  rw [RestoreCall.rename, put_other hsource, put_other htarget]

end Parent

theorem hidden_ne (name middle id : String) : "." ++ name ++ middle ++ id ≠ name := by
  intro h
  have hlength := congrArg String.length h
  have hdot : ".".length = 1 := rfl
  rw [String.length_append, String.length_append, String.length_append] at hlength
  omega

theorem stagingName_ne (q : RestoreRequest) (id : String) : stagingName q id ≠ q.fileName :=
  hidden_ne q.fileName ".restore." id

theorem oldName_ne (q : RestoreRequest) (id : String) : oldName q id ≠ q.fileName :=
  hidden_ne q.fileName ".old." id

/-! ## What stands in the directory -/

structure Staged (q : RestoreRequest) (before s : RestoreCall Bytes) (staging : String) : Prop where
  made : s.made = [staging]
  beside : staging ≠ q.fileName
  there : s.parent staging ≠ none
  folder : s.parent q.fileName = before.parent q.fileName

/-- The folder has been renamed to `old`. -/
structure Away (q : RestoreRequest) (before s : RestoreCall Bytes) (old : String) : Prop where
  made : old ∈ s.made
  beside : old ≠ q.fileName
  was : before.parent q.fileName ≠ none
  folder : s.parent old = before.parent q.fileName

structure Moved (q : RestoreRequest) (before s : RestoreCall Bytes) (staging : String)
    (old : Option String) : Prop where
  made : s.made = old.toList ++ [staging]
  beside : staging ≠ q.fileName
  there : s.parent staging ≠ none
  gone : s.parent q.fileName = none
  vacant : old = none → before.parent q.fileName = none
  away : ∀ name ∈ old, Away q before s name ∧ name ≠ staging

/-- The staging directory has taken the place of the folder. -/
structure Replaced (q : RestoreRequest) (before s : RestoreCall Bytes) (old : Option String) :
    Prop where
  there : s.parent q.fileName ≠ none
  vacant : old = none → before.parent q.fileName = none
  away : ∀ name ∈ old, Away q before s name

structure Discarding (q : RestoreRequest) (before s : RestoreCall Bytes) (staging : String) :
    Prop where
  made : staging ∈ s.made
  beside : staging ≠ q.fileName
  there : s.parent staging ≠ none
  folder : s.parent q.fileName = before.parent q.fileName
  others : ∀ name ∈ s.made, name ≠ staging → s.parent name = none

def Tidy (q : RestoreRequest) (before s : RestoreCall Bytes) : Prop :=
  match s.phase with
  | .called | .fenced | .resolved _ | .fetched _ _ =>
      s.parent q.fileName = before.parent q.fileName ∧ s.made = []
  | .materializing _ _ staging | .publishing _ staging _ => Staged q before s staging
  | .moved staging old => Moved q before s staging old
  | .puttingBack staging old _ => Moved q before s staging (some old)
  | .discarding staging _ => Discarding q before s staging
  | .published old => Replaced q before s old
  | .committed _ | .returned (.ok _) => True
  | .returned (.error _) => LeftAlone q before s

def Abandoned (q : RestoreRequest) (before s : RestoreCall Bytes) : Prop :=
  match s.phase with
  | .discarding staging _ =>
      staging ≠ q.fileName ∧ s.parent q.fileName ≠ before.parent q.fileName
  | .returned (.error _) => ¬ LeftAlone q before s
  | _ => False

section Steps

variable {site : Site Bytes} {q : RestoreRequest} {before s s' : RestoreCall Bytes}
  {staging : String} {err : AppError}

/-! ## What the call does not see -/

structure Agrees (q : RestoreRequest) (s s' : RestoreCall Bytes) : Prop where
  made : s'.made = s.made
  folder : s'.parent q.fileName = s.parent q.fileName
  own : ∀ name ∈ s.made, s'.parent name = s.parent name

theorem agrees_at (phase : CallPhase) : Agrees q s (s.at phase) := ⟨rfl, rfl, fun _ _ => rfl⟩

theorem agrees_put {name : String} {entry : Option (Folder Bytes)}
    (h : ¬ (name = q.fileName ∨ name ∈ s.made)) : Agrees q s (s.put name entry) := by
  rw [not_or] at h
  refine ⟨rfl, put_other (Ne.symm h.1), fun other hother => put_other ?_⟩
  rintro rfl
  exact h.2 hother

theorem LeftAlone.congr (hagrees : Agrees q s s') : LeftAlone q before s' ↔ LeftAlone q before s := by
  unfold LeftAlone
  rw [hagrees.made, hagrees.folder]
  refine and_congr_right fun _ => forall₂_congr fun name hname => ?_
  rw [hagrees.own name hname]

theorem Staged.congr (h : Staged q before s staging) (hagrees : Agrees q s s') :
    Staged q before s' staging := by
  refine ⟨hagrees.made.trans h.made, h.beside, ?_, hagrees.folder.trans h.folder⟩
  rw [hagrees.own staging (h.made ▸ List.mem_cons_self)]
  exact h.there

theorem Discarding.congr (h : Discarding q before s staging) (hagrees : Agrees q s s') :
    Discarding q before s' staging := by
  refine ⟨hagrees.made ▸ h.made, h.beside, ?_, hagrees.folder.trans h.folder, ?_⟩
  · rw [hagrees.own staging h.made]
    exact h.there
  · intro name hname hother
    rw [hagrees.made] at hname
    exact (hagrees.own name hname).trans (h.others name hname hother)

theorem Away.congr {old : String} (h : Away q before s old) (hagrees : Agrees q s s') :
    Away q before s' old :=
  ⟨hagrees.made ▸ h.made, h.beside, h.was, (hagrees.own old h.made).trans h.folder⟩

theorem Moved.congr {old : Option String} (h : Moved q before s staging old)
    (hagrees : Agrees q s s') : Moved q before s' staging old := by
  refine ⟨hagrees.made.trans h.made, h.beside, ?_, hagrees.folder.trans h.gone, h.vacant, ?_⟩
  · rw [hagrees.own staging (h.made ▸ List.mem_append_right _ List.mem_cons_self)]
    exact h.there
  · exact fun name hname => ⟨(h.away name hname).1.congr hagrees, (h.away name hname).2⟩

theorem Replaced.congr {old : Option String} (h : Replaced q before s old)
    (hagrees : Agrees q s s') : Replaced q before s' old := by
  refine ⟨?_, h.vacant, fun name hname => (h.away name hname).congr hagrees⟩
  rw [hagrees.folder]
  exact h.there

theorem Tidy.congr (h : Tidy q before s) (hagrees : Agrees q s s') (hphase : s'.phase = s.phase) :
    Tidy q before s' := by
  unfold Tidy at h ⊢
  rw [hphase]
  split at h
  · exact ⟨hagrees.folder.trans h.1, hagrees.made.trans h.2⟩
  · exact ⟨hagrees.folder.trans h.1, hagrees.made.trans h.2⟩
  · exact ⟨hagrees.folder.trans h.1, hagrees.made.trans h.2⟩
  · exact ⟨hagrees.folder.trans h.1, hagrees.made.trans h.2⟩
  · exact h.congr hagrees
  · exact h.congr hagrees
  · exact h.congr hagrees
  · exact h.congr hagrees
  · exact h.congr hagrees
  · exact h.congr hagrees
  · trivial
  · trivial
  · exact (LeftAlone.congr hagrees).mpr h

theorem Abandoned.congr (h : Abandoned q before s) (hagrees : Agrees q s s')
    (hphase : s'.phase = s.phase) : Abandoned q before s' := by
  unfold Abandoned at h ⊢
  rw [hphase]
  split at h
  · exact ⟨h.1, hagrees.folder ▸ h.2⟩
  · exact fun hleft => h ((LeftAlone.congr hagrees).mp hleft)
  · exact h.elim

/-! ## Before the renames -/

theorem Staged.discarding (h : Staged q before s staging) : Discarding q before s staging := by
  refine ⟨h.made ▸ List.mem_cons_self, h.beside, h.there, h.folder, ?_⟩
  intro name hname hother
  rw [h.made] at hname
  exact absurd (List.mem_singleton.mp hname) hother

theorem Staged.not_leftAlone (h : Staged q before s staging) : ¬ LeftAlone q before s := by
  rintro ⟨-, hnone⟩
  exact h.there (hnone staging (h.made ▸ List.mem_cons_self))

theorem Staged.abandoned (h : Staged q before s staging) :
    Abandoned q before (s.at (.returned (.error err))) :=
  h.not_leftAlone

theorem Staged.tidy_publishing (h : Staged q before s staging) (generation : Int)
    (point : PublishPoint) : Tidy q before (s.at (.publishing generation staging point)) :=
  h.congr (agrees_at _)

theorem Staged.tidy_checkOr {α : Type} {x : Except AppError α} {next : α → CallPhase}
    (h : Staged q before s staging) (hnext : ∀ a, Tidy q before (s.at (next a))) :
    Tidy q before (s.checkOr staging x next) := by
  unfold RestoreCall.checkOr
  split
  · exact hnext _
  · exact h.discarding.congr (agrees_at _)

theorem dirtyFlag_eq_error {db : Database} {problemId : String} {e : AppError}
    (h : dirtyFlag db problemId = .error e) : Unlisted db problemId := by
  unfold dirtyFlag at h
  split at h
  · cases h
  · rename_i hnone
    intro p hp hid
    have hfree := List.find?_eq_none.mp hnone p hp
    rw [decide_eq_true_eq] at hfree
    exact hfree hid

theorem tidy_publishNext {generation : Int} {point : PublishPoint}
    (hs : Staged q before s staging) (hphase : s.phase = .publishing generation staging point)
    (h : publishNext site q s generation staging point = some s')
    (hkept : ¬ Abandons site q s .next) : Tidy q before s' := by
  unfold Abandons at hkept
  rw [hphase] at hkept
  cases point with
  | staged | locked =>
      cases h
      exact hs.tidy_publishing generation _
  | begun =>
      cases h
      unfold RestoreCall.check
      split
      · exact hs.tidy_publishing generation _
      · rename_i e herror
        refine absurd (checkToken_ne_ok_iff.mp ?_) hkept
        rw [show checkToken _ _ = .error e from herror]
        nofun
  | fenced | scanned _ =>
      cases h
      exact hs.tidy_checkOr fun _ => hs.tidy_publishing generation _
  | found =>
      unfold publishNext at h
      dsimp only at h
      split at h
      · cases h
        exact hs.tidy_publishing generation _
      · rename_i folder hfolder
        split at h
        · rename_i herror
          refine absurd ⟨?_, dirtyFlag_eq_error herror⟩ hkept
          rw [hfolder]
          rfl
        · cases h
          exact hs.tidy_checkOr fun _ => hs.tidy_publishing generation _
  | clean =>
      cases h
      unfold RestoreCall.check
      split
      · exact hs.tidy_publishing generation _
      · rename_i herror
        refine absurd ?_ hkept
        dsimp only
        rw [herror]
        rfl
  | replaceable => cases h

theorem abandoned_publishNext {generation : Int} {point : PublishPoint}
    (hs : Staged q before s staging) (hphase : s.phase = .publishing generation staging point)
    (h : publishNext site q s generation staging point = some s')
    (hlost : Abandons site q s .next) : Abandoned q before s' := by
  unfold Abandons at hlost
  rw [hphase] at hlost
  cases point with
  | staged | locked | fenced | scanned _ | replaceable => exact hlost.elim
  | begun =>
      cases h
      cases hfencing : ensureLatestFencing s.db.jobs q.problemId q.fencingToken with
      | ok => exact absurd hfencing (checkToken_ne_ok_iff.mpr hlost)
      | error e => exact hs.abandoned
  | found =>
      obtain ⟨hthere, hunlisted⟩ := hlost
      obtain ⟨folder, hfolder⟩ := Option.isSome_iff_exists.mp hthere
      have hnone : (s.db.problems.find? fun p => decide (p.externalId = q.problemId)) = none := by
        rw [List.find?_eq_none]
        intro p hp
        rw [decide_eq_true_eq]
        exact hunlisted p hp
      simp only [publishNext, hfolder, dirtyFlag, hnone] at h
      cases h
      exact hs.abandoned
  | clean =>
      cases h
      cases hscan : scanDestination site q s with
      | error e => exact hs.abandoned
      | ok scan =>
          dsimp only at hlost
          rw [hscan] at hlost
          cases hlost

theorem staged_makeStaging {id : String} {phase : CallPhase}
    (hfolder : s.parent q.fileName = before.parent q.fileName) :
    Staged q before { s.put (stagingName q id) (some emptyFolder) with
      made := [stagingName q id], phase := phase } (stagingName q id) := by
  refine ⟨rfl, stagingName_ne q id, ?_, (put_other (stagingName_ne q id).symm).trans hfolder⟩
  dsimp only
  rw [put_self]
  exact Option.some_ne_none _

/-! ## The renames -/

theorem Staged.vacant (h : Staged q before s staging) (hvacant : s.parent q.fileName = none) :
    Moved q before (s.at (.moved staging none)) staging none :=
  ⟨h.made, h.beside, h.there, hvacant, fun _ => h.folder.symm.trans hvacant, nofun⟩

theorem Away.not_leftAlone {old : String} (h : Away q before s old) : ¬ LeftAlone q before s := by
  rintro ⟨-, hnone⟩
  exact h.was (h.folder ▸ hnone old h.made)

theorem Moved.discarding {old : Option String} (h : Moved q before s staging old)
    (hnone : old = none) : Discarding q before s staging := by
  refine ⟨h.made ▸ List.mem_append_right _ List.mem_cons_self, h.beside, h.there, ?_, ?_⟩
  · rw [h.gone, h.vacant hnone]
  · intro name hname hother
    rw [h.made, hnone] at hname
    exact absurd (List.mem_singleton.mp hname) hother

theorem Staged.moveAside {id : String} {folder : Folder Bytes} (h : Staged q before s staging)
    (hfolder : s.parent q.fileName = some folder) (hfree : s.parent (oldName q id) = none) :
    Moved q before { s.rename q.fileName (oldName q id) with
      made := oldName q id :: s.made, phase := .moved staging (some (oldName q id)) } staging
      (some (oldName q id)) := by
  have hold : oldName q id ≠ q.fileName := oldName_ne q id
  have hstaging : oldName q id ≠ staging := by
    rintro heq
    exact h.there (heq ▸ hfree)
  refine ⟨?_, h.beside, ?_, rename_source, nofun, ?_⟩
  · dsimp only
    rw [h.made]
    rfl
  · dsimp only
    rw [rename_other h.beside hstaging.symm]
    exact h.there
  · intro name hname
    obtain rfl : oldName q id = name := Option.some.inj hname
    refine ⟨⟨List.mem_cons_self, hold, ?_, ?_⟩, hstaging⟩
    · rw [← h.folder, hfolder]
      exact Option.some_ne_none folder
    · exact (rename_target hold.symm).trans h.folder

theorem Moved.replaced {old : Option String} (h : Moved q before s staging old) :
    Replaced q before ((s.rename staging q.fileName).at (.published old)) old := by
  refine ⟨?_, h.vacant, ?_⟩
  · change (s.rename staging q.fileName).parent q.fileName ≠ none
    rw [rename_target h.beside]
    exact h.there
  · intro name hname
    obtain ⟨haway, hother⟩ := h.away name hname
    exact ⟨haway.made, haway.beside, haway.was,
      (rename_other hother haway.beside).trans haway.folder⟩

theorem Moved.putBack {old : String} (h : Moved q before s staging (some old)) :
    Discarding q before ((s.rename old q.fileName).at (.discarding staging err)) staging := by
  obtain ⟨haway, hother⟩ := h.away old rfl
  refine ⟨h.made ▸ List.mem_append_right _ List.mem_cons_self, h.beside, ?_, ?_, ?_⟩
  · change (s.rename old q.fileName).parent staging ≠ none
    rw [rename_other hother.symm h.beside]
    exact h.there
  · exact (rename_target haway.beside).trans haway.folder
  · intro name hname hne
    have hmem : name ∈ s.made := hname
    rw [h.made] at hmem
    rcases List.mem_cons.mp hmem with rfl | hmem
    · exact rename_source
    · exact absurd (List.mem_singleton.mp hmem) hne

theorem Replaced.not_leftAlone {old : Option String} (h : Replaced q before s old) :
    ¬ LeftAlone q before s := by
  cases old with
  | none =>
      rintro ⟨hsame, -⟩
      exact h.there (hsame.trans (h.vacant rfl))
  | some old => exact (h.away old rfl).not_leftAlone

theorem Discarding.leftAlone (h : Discarding q before s staging) :
    LeftAlone q before ((s.put staging none).at (.returned (.error err))) := by
  refine ⟨(put_other h.beside.symm).trans h.folder, ?_⟩
  intro name hname
  by_cases heq : name = staging
  · subst heq
    exact put_self
  · exact (put_other heq).trans (h.others name hname heq)

theorem Discarding.not_leftAlone (h : Discarding q before s staging) :
    ¬ LeftAlone q before s := by
  rintro ⟨-, hnone⟩
  exact h.there (hnone staging h.made)

theorem Staged.write (h : Staged q before s staging) (folder : Folder Bytes) :
    Staged q before (s.put staging (some folder)) staging := by
  refine ⟨h.made, h.beside, ?_, (put_other h.beside.symm).trans h.folder⟩
  rw [put_self]
  exact Option.some_ne_none folder

theorem Discarding.write (h : Discarding q before s staging) (folder : Folder Bytes) :
    Discarding q before (s.put staging (some folder)) staging := by
  refine ⟨h.made, h.beside, ?_, (put_other h.beside.symm).trans h.folder, ?_⟩
  · rw [put_self]
    exact Option.some_ne_none folder
  · exact fun name hname hother => (put_other hother).trans (h.others name hname hother)

/-! ## The steps -/

theorem leftAlone_of_untouched
    (h : s.parent q.fileName = before.parent q.fileName ∧ s.made = []) : LeftAlone q before s := by
  refine ⟨h.1, fun name hname => ?_⟩
  rw [h.2] at hname
  cases hname

theorem tidy_check {α : Type} {x : Except AppError α} {next : α → CallPhase}
    (h : s.parent q.fileName = before.parent q.fileName ∧ s.made = [])
    (hnext : ∀ a, Tidy q before (s.at (next a))) : Tidy q before (s.check x next) := by
  unfold RestoreCall.check
  split
  · exact hnext _
  · exact leftAlone_of_untouched h

theorem tidy_fail {phase : CallPhase} (hs : Tidy q before s) (h : s.phase.failed err = some phase)
    (hkept : ¬ Abandons site q s (.fail err)) : Tidy q before (s.at phase) := by
  unfold Abandons at hkept
  unfold Tidy at hs
  cases hphase : s.phase with
  | called | fenced | resolved _ | fetched _ _ =>
      rw [hphase] at hs h
      cases h
      exact leftAlone_of_untouched hs
  | materializing _ _ staging =>
      rw [hphase] at hs h
      cases h
      exact hs.discarding.congr (agrees_at _)
  | moved staging old =>
      rw [hphase] at hs h
      cases old with
      | none =>
          cases h
          exact (hs.discarding rfl).congr (agrees_at _)
      | some old =>
          cases h
          exact hs.congr (agrees_at _)
  | committed _ =>
      rw [hphase] at h
      cases h
      trivial
  | returned _ =>
      rw [hphase] at h
      cases h
  | publishing _ _ _ | published _ | puttingBack _ _ _ | discarding _ _ =>
      rw [hphase] at hkept
      exact absurd trivial hkept

theorem abandoned_fail {phase : CallPhase} (hs : Tidy q before s)
    (h : s.phase.failed err = some phase) (hlost : Abandons site q s (.fail err)) :
    Abandoned q before (s.at phase) := by
  unfold Abandons at hlost
  unfold Tidy at hs
  cases hphase : s.phase with
  | publishing _ staging _ =>
      rw [hphase] at hs h
      cases h
      exact hs.abandoned
  | published old =>
      rw [hphase] at hs h
      cases h
      exact hs.not_leftAlone
  | puttingBack staging old first =>
      rw [hphase] at hs h
      cases h
      refine ⟨hs.beside, ?_⟩
      change s.parent q.fileName ≠ before.parent q.fileName
      rw [hs.gone]
      exact (hs.away old rfl).1.was.symm
  | discarding staging first =>
      rw [hphase] at hs h
      cases h
      exact hs.not_leftAlone
  | called | fenced | resolved _ | fetched _ _ | materializing _ _ _ | moved _ _ | committed _
  | returned _ =>
      rw [hphase] at hlost
      exact hlost.elim

theorem tidy_next (hs : Tidy q before s) (h : restoreNext site q s = some s')
    (hkept : ¬ Abandons site q s .next) :
    Tidy q before s' := by
  have hphases := hs
  unfold Tidy at hphases
  unfold restoreNext at h
  cases hphase : s.phase with
  | called | fenced =>
      rw [hphase] at hphases h
      cases h
      exact tidy_check hphases fun _ => hphases
  | publishing generation staging point =>
      rw [hphase] at hphases h
      exact tidy_publishNext hphases hphase h hkept
  | moved staging old =>
      rw [hphase] at hphases h
      cases h
      exact hphases.replaced
  | committed old =>
      rw [hphase] at h
      cases old with
      | none =>
          cases h
          trivial
      | some old =>
          cases h
          trivial
  | puttingBack staging old err =>
      rw [hphase] at hphases h
      cases h
      exact hphases.putBack
  | discarding staging err =>
      rw [hphase] at hphases h
      cases h
      exact hphases.leftAlone
  | resolved _ | fetched _ _ | materializing _ _ _ | published _ | returned _ =>
      rw [hphase] at h
      cases h

theorem tidy_step [DecidableEq Bytes] {e : CallEvent Bytes} (hs : Tidy q before s)
    (h : restoreStep site q s e = some s') (hkept : ¬ Abandons site q s e) :
    Tidy q before s' := by
  cases e with
  | next => exact tidy_next hs h hkept
  | fail err =>
      obtain ⟨phase, hfailed, rfl⟩ := Option.map_eq_some_iff.mp h
      exact tidy_fail hs hfailed hkept
  | other db =>
      cases h
      exact hs.congr ⟨rfl, rfl, fun _ _ => rfl⟩ rfl
  | beside name entry =>
      simp only [restoreStep] at h
      split at h
      · cases h
      · rename_i hother
        cases h
        exact hs.congr (agrees_put hother) rfl
  | fetch objects =>
      simp only [restoreStep] at h
      split at h
      · rename_i hphase
        unfold Tidy at hs
        rw [hphase] at hs
        cases h
        exact tidy_check hs fun _ => hs
      · cases h
  | makeStaging id =>
      simp only [restoreStep] at h
      split at h
      · rename_i hphase
        unfold Tidy at hs
        rw [hphase] at hs
        split at h
        · cases h
          exact leftAlone_of_untouched hs
        · split at h
          · cases h
            exact staged_makeStaging hs.1
          · cases h
      · cases h
  | materialize objects folder =>
      simp only [restoreStep] at h
      split at h
      · rename_i hphase
        unfold Tidy at hs
        rw [hphase] at hs
        split at h
        · cases h
          exact hs.discarding.congr (agrees_at _)
        · split at h
          · cases h
            exact (hs.write folder).congr (agrees_at _)
          · cases h
      · cases h
  | moveAside id =>
      simp only [restoreStep] at h
      split at h
      · rename_i hphase
        unfold Tidy at hs
        rw [hphase] at hs
        split at h
        · rename_i hvacant
          cases h
          exact hs.vacant hvacant
        · rename_i folder hfolder
          split at h
          · rename_i hfree
            cases h
            exact hs.moveAside hfolder (Option.isNone_iff_eq_none.mp hfree)
          · cases h
      · cases h
  | commit now =>
      simp only [restoreStep] at h
      split at h
      · cases h
        trivial
      · cases h
  | write folder =>
      simp only [restoreStep] at h
      split at h
      · rename_i hphase
        unfold Tidy at hs
        rw [hphase] at hs
        cases h
        simp only [Tidy, put_phase, hphase]
        exact hs.write folder
      · rename_i hphase
        unfold Tidy at hs
        rw [hphase] at hs
        cases h
        simp only [Tidy, put_phase, hphase]
        exact hs.write folder
      · cases h

theorem abandoned_of_abandons [DecidableEq Bytes] {e : CallEvent Bytes} (hs : Tidy q before s)
    (h : restoreStep site q s e = some s') (hlost : Abandons site q s e) :
    Abandoned q before s' := by
  cases e with
  | next =>
      have hphases := hs
      unfold Tidy at hphases
      cases hphase : s.phase with
      | publishing generation staging point =>
          rw [hphase] at hphases
          simp only [restoreStep, restoreNext, hphase] at h
          exact abandoned_publishNext hphases hphase h hlost
      | called | fenced | resolved _ | fetched _ _ | materializing _ _ _ | moved _ _
      | published _ | committed _ | puttingBack _ _ _ | discarding _ _ | returned _ =>
          unfold Abandons at hlost
          rw [hphase] at hlost
          exact hlost.elim
  | fail err =>
      obtain ⟨phase, hfailed, rfl⟩ := Option.map_eq_some_iff.mp h
      exact abandoned_fail hs hfailed hlost
  | fetch _ | makeStaging _ | materialize _ _ | moveAside _ | commit _ | write _ | other _
  | beside _ _ => exact hlost.elim

theorem abandoned_step [DecidableEq Bytes] {e : CallEvent Bytes} (hs : Abandoned q before s)
    (h : restoreStep site q s e = some s') : Abandoned q before s' := by
  cases e with
  | other db =>
      cases h
      exact hs.congr ⟨rfl, rfl, fun _ _ => rfl⟩ rfl
  | beside name entry =>
      simp only [restoreStep] at h
      split at h
      · cases h
      · rename_i hother
        cases h
        exact hs.congr (agrees_put hother) rfl
  | next =>
      unfold Abandoned at hs
      split at hs
      · rename_i hphase
        simp only [restoreStep, restoreNext, hphase] at h
        cases h
        exact fun hleft => hs.2 ((put_other hs.1.symm).symm.trans hleft.1)
      · rename_i hphase
        simp only [restoreStep, restoreNext, hphase] at h
        cases h
      · exact hs.elim
  | fail err =>
      unfold Abandoned at hs
      split at hs
      · rename_i hphase
        simp only [restoreStep, CallPhase.failed, hphase] at h
        cases h
        exact fun hleft => hs.2 hleft.1
      · rename_i hphase
        simp only [restoreStep, CallPhase.failed, hphase] at h
        cases h
      · exact hs.elim
  | write folder =>
      unfold Abandoned at hs
      split at hs
      · rename_i hphase
        simp only [restoreStep, hphase] at h
        cases h
        simp only [Abandoned, put_phase, hphase]
        refine ⟨hs.1, ?_⟩
        rw [put_other hs.1.symm]
        exact hs.2
      · rename_i hphase
        simp only [restoreStep, hphase] at h
        cases h
      · exact hs.elim
  | fetch _ | makeStaging _ | materialize _ _ | moveAside _ | commit _ =>
      unfold Abandoned at hs
      split at hs
      · rename_i hphase
        simp only [restoreStep, hphase] at h
        cases h
      · rename_i hphase
        simp only [restoreStep, hphase] at h
        cases h
      · exact hs.elim

/-! ## The run -/

/-- A restore that fails leaves the directory as it was if and only if it fails at none of the
exits that abandon what they have made. -/
theorem failed_restore_leaves [DecidableEq Bytes] {events : List (CallEvent Bytes)}
    (hcalled : Called before) (hrun : exec (restoreStep site q) before events = some s)
    (herror : s.phase = .returned (.error err)) :
    LeftAlone q before s ↔
      EveryStep (restoreStep site q) (fun t e _ => ¬ Abandons site q t e) before events := by
  have htidy : Tidy q before before := by
    unfold Tidy
    rw [hcalled.1]
    exact ⟨rfl, hcalled.2⟩
  have hsettled := exec_kept_or_lost (I := Tidy q before) (J := Abandoned q before)
    (C := fun t e _ => ¬ Abandons site q t e) (fun _ _ _ hs h hkept => tidy_step hs h hkept)
    (fun _ _ _ hs h hlost => abandoned_of_abandons hs h (not_not.mp hlost))
    (fun _ _ _ hs h => abandoned_step hs h) htidy hrun
  rcases hsettled with ⟨hkept, hs⟩ | ⟨hlost, hs⟩
  · unfold Tidy at hs
    rw [herror] at hs
    exact iff_of_true hs hkept
  · unfold Abandoned at hs
    rw [herror] at hs
    exact iff_of_false hs hlost

end Steps

instance (db : Database) (problemId : String) : Decidable (Unlisted db problemId) :=
  inferInstanceAs (Decidable (∀ p ∈ db.problems, p.externalId ≠ problemId))

instance (site : Site Bytes) (q : RestoreRequest) (s : RestoreCall Bytes) (e : CallEvent Bytes) :
    Decidable (Abandons site q s e) := by
  unfold Abandons
  split
  · split <;> infer_instance
  · split <;> infer_instance
  · infer_instance

/-! Job 1 restores generation 1 of problem 7, whose folder has been evicted. -/

def restoredManifest : Manifest where
  schemaVersion := 3
  problemId := "7"
  code := "sums"
  generation := 1
  createdAt := 0
  files := [⟨"tests.zip", "tests", 5, 8, 0o100644, 2049, 11, 1, none, none,
    objectKeyForSha256 "tests"⟩]
  canonicalDownloadPath := some "tests.zip"
  totalBytes := 5
  fileCount := 1

def restoringSite : Site String where
  contents := ⟨id, id, String.length⟩
  fromSlice := fun _ => .ok restoredManifest
  root := "/problems"
  problemId := "7"
  code := "sums"

def restoringRequest : RestoreRequest := ⟨"7", 1, 5, "sums"⟩

def restoringCall : RestoreCall String where
  db := {
    problems := [Jobs.sampleProblem "7" "sums" .missing]
    snapshots := [⟨1, "7", 1, .ready, 1, 5, some (manifestKey "7" 1), none, none, 0, none, none⟩]
    jobs := [heldJob 1 "restore" .restore (some "7") 5] }
  parent := fun _ => none
  made := []
  phase := .called

def storedObjects (key : String) : Option String :=
  if key = manifestKey "7" 1 ∨ key = objectKeyForSha256 "tests" then some "tests" else none

def downloadedFolder : Folder String where
  walk := [⟨[OsName.ofText "tests.zip"], .file 0 "tests", ⟨2049, 12, 1, 8, 0o100644⟩⟩]
  same := by
    intro e he e' he' i x i' x' hx hx' _
    obtain rfl := List.mem_singleton.mp he
    obtain rfl := List.mem_singleton.mp he'
    cases hx
    cases hx'
    rfl

/-- The lease of the job has expired, and it has been acquired again. -/
def fencedDatabase : Database :=
  { restoringCall.db with
    jobs := [{ heldJob 1 "restore" .restore (some "7") 6 with attempt := 2 }] }

def missingObject : List (CallEvent String) :=
  [.next, .next, .fetch storedObjects, .makeStaging "a", .materialize (fun _ => none) downloadedFolder,
    .next]

theorem failed_restore_leaves_missing_object :
    ∃ s, exec (restoreStep restoringSite restoringRequest) restoringCall missingObject = some s ∧
      s.phase = .returned (.error (.r2ObjectMissing "tests.zip" (objectKeyForSha256 "tests"))) ∧
      LeftAlone restoringRequest restoringCall s := by
  have hreturned : (exec (restoreStep restoringSite restoringRequest) restoringCall
      missingObject).any (fun s => s.phase = .returned
        (.error (.r2ObjectMissing "tests.zip" (objectKeyForSha256 "tests")))) = true := by
    decide +kernel
  obtain ⟨s, hrun, hphase⟩ := (Option.any_eq_true _ _).mp hreturned
  rw [decide_eq_true_eq] at hphase
  have hkept : EveryStep (restoreStep restoringSite restoringRequest)
      (fun t e _ => ¬ Abandons restoringSite restoringRequest t e) restoringCall missingObject := by
    decide +kernel
  exact ⟨s, hrun, hphase, (failed_restore_leaves ⟨rfl, rfl⟩ hrun hphase).mpr hkept⟩

def fencedRestore : List (CallEvent String) :=
  [.next, .next, .fetch storedObjects, .makeStaging "a", .other fencedDatabase,
    .materialize storedObjects downloadedFolder, .next, .next, .next]

theorem fenced_restore_leaves_staging :
    Called restoringCall ∧ ∃ s,
      exec (restoreStep restoringSite restoringRequest) restoringCall fencedRestore = some s ∧
      s.phase = .returned (.error (.fencingMismatch 5 6)) ∧
      ¬ LeftAlone restoringRequest restoringCall s := by
  have hreturned : (exec (restoreStep restoringSite restoringRequest) restoringCall
      fencedRestore).any (fun s => s.phase = .returned (.error (.fencingMismatch 5 6)) &&
        ".sums.restore.a" ∈ s.made && (s.parent ".sums.restore.a").isSome) = true := by
    decide +kernel
  obtain ⟨s, hrun, hs⟩ := (Option.any_eq_true _ _).mp hreturned
  rw [Bool.and_eq_true, Bool.and_eq_true, decide_eq_true_eq, decide_eq_true_eq] at hs
  obtain ⟨⟨hphase, hmade⟩, hthere⟩ := hs
  refine ⟨⟨rfl, rfl⟩, s, hrun, hphase, ?_⟩
  rintro ⟨-, hnone⟩
  rw [hnone _ hmade] at hthere
  cases hthere

end ExternalStorage.Publication
