import ExternalStorage.Dashboard.Sessions
import ExternalStorage.Library.Exclusion

/-!
# The last administrator

`deleteDashboardUser` counts the enabled users and deletes its own in two statements of one
transaction, under an advisory lock that only deletions take.  What is created or changed in
between takes no enabled user away, so that the count still bounds the table at the commit.
-/

namespace ExternalStorage.Dashboard

open ExternalStorage.Model Library.Exclusion Library.Runs Library.Table

/-! ## The machine -/

inductive UserCall where
  | create (username password passwordHash : String)
  | change (username password passwordHash : String)
  | delete (username : String)
  deriving DecidableEq

inductive CallEnd where
  /-- A creation or a password change has returned. -/
  | answered
  /-- A deletion has returned `true`. -/
  | deleted
  /-- A deletion has returned `false`. -/
  | absent
  /-- `LastDashboardAdministratorError`. -/
  | refused
  /-- Any other error; the transaction is rolled back. -/
  | failed
  deriving DecidableEq

inductive CallPhase where
  | waiting
  /-- The `UPDATE` of a password change waits for the transaction of another call. -/
  | blocked (holder : Nat)
  | begun (name : Username)
  /-- It has the advisory lock. -/
  | locked (name : Username)
  /-- It has locked the row of the user. -/
  | targeted (name : Username) (enabled : Bool)
  | counted (name : Username)
  /-- It has deleted the row and not committed. -/
  | removed (name : Username)
  | ended (e : CallEnd)
  deriving DecidableEq

structure AdminCall where
  call : UserCall
  phase : CallPhase := .waiting
  deriving DecidableEq

/-- `users` are the committed rows. -/
structure Admins where
  users : List DashboardUser
  calls : List AdminCall
  deriving DecidableEq

inductive AdminMove where
  /-- The one statement of a creation or of a password change. -/
  | run
  | begin
  | lock
  | target
  | count
  | delete
  | commit
  | fail

structure AdminAction where
  caller : Nat
  move : AdminMove

/-- `pg_advisory_xact_lock` of `'dashboard-users-delete'`. -/
def AdminCall.lock (c : AdminCall) : Option Unit :=
  match c.phase with
  | .locked _ | .targeted _ _ | .counted _ | .removed _ => some ()
  | _ => none

def AdminCall.row (c : AdminCall) : Option Username :=
  match c.phase with
  | .targeted name _ | .counted name | .removed name => some name
  | _ => none

/-- The call that a statement on the row of `name` waits for. -/
def rowHolder (calls : List AdminCall) (name : Username) : Option Nat :=
  calls.findIdx? fun c => c.row = some name

/-- The unique index waits for a deletion that may still be rolled back. -/
def removing (calls : List AdminCall) (username : String) : Bool :=
  (normalizeUsername username).any fun name => calls.any fun c => c.phase = .removed name

def administrators (users : List DashboardUser) : Nat := users.countP DashboardUser.enabled

def runCreate (s : Admins) (username password passwordHash : String) :
    Option (List DashboardUser × CallPhase) :=
  match createDashboardUser username password passwordHash s.users with
  | .ok (users, _) => some (users, .ended .answered)
  | .error .uniqueViolation =>
      if removing s.calls username then none else some (s.users, .ended .failed)
  | .error _ => some (s.users, .ended .failed)

def runChange (s : Admins) (username password passwordHash : String) :
    Option (List DashboardUser × CallPhase) :=
  match validatePassword password, (normalizeUsername username).bind (rowHolder s.calls) with
  | .ok _, some holder => some (s.users, .blocked holder)
  | _, _ =>
      match changeDashboardUserPassword username password passwordHash s.users with
      | .ok (users, _) => some (users, .ended .answered)
      | .error _ => some (s.users, .ended .failed)

/-- An `UPDATE` that has waited for a deletion: the row is gone when it was committed. -/
def rerunChange (s : Admins) (holder : Nat) (username password passwordHash : String) :
    Option (List DashboardUser × CallPhase) :=
  match s.calls[holder]? with
  | some ⟨_, .ended .deleted⟩ => some (s.users, .ended .answered)
  | some ⟨_, .ended _⟩ => runChange s username password passwordHash
  | _ => none

/-- The rows and the phase after a move of the call `c`. -/
def callStep (s : Admins) (c : AdminCall) : AdminMove → Option (List DashboardUser × CallPhase)
  | .run =>
      match c with
      | ⟨.create username password passwordHash, .waiting⟩ =>
          runCreate s username password passwordHash
      | ⟨.change username password passwordHash, .waiting⟩ =>
          runChange s username password passwordHash
      | ⟨.change username password passwordHash, .blocked holder⟩ =>
          rerunChange s holder username password passwordHash
      | _ => none
  | .begin =>
      match c with
      | ⟨.delete username, .waiting⟩ =>
          match normalizeUsername username with
          | none => some (s.users, .ended .absent)
          | some name => some (s.users, .begun name)
      | _ => none
  | .lock =>
      match c.phase with
      | .begun name =>
          if s.calls.all fun d => d.lock = none then some (s.users, .locked name) else none
      | _ => none
  | .target =>
      match c.phase with
      | .locked name =>
          match s.users.find? fun u => u.username = name with
          | none => some (s.users, .ended .absent)
          | some user => some (s.users, .targeted name user.enabled)
      | _ => none
  | .count =>
      match c.phase with
      | .targeted name true =>
          -- the count is cast to `integer`
          if 2 ^ 31 ≤ administrators s.users then
            some (s.users, .ended .failed)
          else if administrators s.users ≤ 1 then
            some (s.users, .ended .refused)
          else
            some (s.users, .counted name)
      | _ => none
  | .delete =>
      match c.phase with
      | .targeted name false | .counted name => some (s.users, .removed name)
      | _ => none
  | .commit =>
      match c.phase with
      | .removed name =>
          some (deleteWhere (fun u => u.username = name) s.users, .ended .deleted)
      | _ => none
  | .fail =>
      match c.phase with
      | .ended _ => none
      | _ => some (s.users, .ended .failed)

def adminStep (s : Admins) (a : AdminAction) : Option Admins := do
  let c ← s.calls[a.caller]?
  let (users, phase) ← callStep s c a.move
  some ⟨users, s.calls.set a.caller { c with phase := phase }⟩

/-- No call has begun. -/
def Admins.Initial (s : Admins) : Prop :=
  (s.users.map DashboardUser.username).Nodup ∧ ∀ c ∈ s.calls, c.phase = .waiting

instance (s : Admins) : Decidable s.Initial :=
  inferInstanceAs (Decidable (_ ∧ _))

def OnlyAdministrator (users : List DashboardUser) (username : String) : Prop :=
  ∃ u ∈ users, normalizeUsername username = some u.username ∧ u.enabled = true ∧
    ∀ v ∈ users, v.enabled = true → v = u

/-! ## What a move does -/

/-- A creation or a password change: no row goes and none is disabled. -/
structure Grown (users users' : List DashboardUser) : Prop where
  unique : (users.map DashboardUser.username).Nodup → (users'.map DashboardUser.username).Nodup
  keeps : ∀ u ∈ users, ∃ u' ∈ users', u'.username = u.username ∧ u'.enabled = u.enabled
  count : administrators users ≤ administrators users'

/-- The moves of a call `c` in progress, with the rows and the phase after it. -/
inductive Moved (s : Admins) (c : AdminCall) : List DashboardUser → CallPhase → Prop
  | answers {users : List DashboardUser} (hgrown : Grown s.users users)
      (hc : ∀ e, c.phase ≠ .ended e) (hcall : ∀ username, c.call ≠ .delete username) :
      Moved s c users (.ended .answered)
  | blocks (holder : Nat) (hc : ∀ e, c.phase ≠ .ended e) : Moved s c s.users (.blocked holder)
  | fails (hc : ∀ e, c.phase ≠ .ended e) : Moved s c s.users (.ended .failed)
  | begins {username : String} {name : Username} (hc : c = ⟨.delete username, .waiting⟩)
      (hname : normalizeUsername username = some name) : Moved s c s.users (.begun name)
  | nameless {username : String} (hc : c = ⟨.delete username, .waiting⟩)
      (hname : normalizeUsername username = none) : Moved s c s.users (.ended .absent)
  | locks {name : Username} (hc : c.phase = .begun name) (hfree : Free AdminCall.lock s.calls ()) :
      Moved s c s.users (.locked name)
  | targets {name : Username} {user : DashboardUser} (hc : c.phase = .locked name)
      (huser : s.users.find? (fun u => u.username = name) = some user) :
      Moved s c s.users (.targeted name user.enabled)
  | misses {name : Username} (hc : c.phase = .locked name)
      (huser : s.users.find? (fun u => u.username = name) = none) :
      Moved s c s.users (.ended .absent)
  | counts {name : Username} (hc : c.phase = .targeted name true)
      (hcount : 2 ≤ administrators s.users) : Moved s c s.users (.counted name)
  | refuses {name : Username} (hc : c.phase = .targeted name true)
      (hcount : administrators s.users ≤ 1) : Moved s c s.users (.ended .refused)
  | removes {name : Username} (hc : c.phase = .targeted name false ∨ c.phase = .counted name) :
      Moved s c s.users (.removed name)
  | commits {name : Username} (hc : c.phase = .removed name) :
      Moved s c (deleteWhere (fun u => u.username = name) s.users) (.ended .deleted)

section Moves

variable {s t : Admins} {c : AdminCall} {users users' : List DashboardUser} {phase : CallPhase}
  {username password passwordHash : String}

theorem Grown.refl (users : List DashboardUser) : Grown users users :=
  ⟨id, fun u hu => ⟨u, hu, rfl, rfl⟩, Nat.le_refl _⟩

theorem grown_create {user : DashboardUser}
    (h : createDashboardUser username password passwordHash users = .ok (users', user)) :
    Grown users users' := by
  obtain ⟨name, -, hfree, rfl, hname, -, -⟩ := createDashboardUser_eq_ok h
  constructor
  · intro hunique
    apply nodup_map_concat hunique
    intro u hu
    rw [hname]
    exact hfree u hu
  · intro u hu
    exact ⟨u, List.mem_append_left _ hu, rfl, rfl⟩
  · exact (List.sublist_append_left users [user]).countP_le

theorem grown_change {found : Option DashboardUser}
    (h : changeDashboardUserPassword username password passwordHash users =
      .ok (users', found)) : Grown users users' := by
  rcases changeDashboardUserPassword_cases h with ⟨rfl, -⟩ | ⟨name, -, rfl⟩
  · exact .refl _
  · have husername : ∀ u : DashboardUser,
        (u.withPassword passwordHash).username = u.username := by
      intro u
      rfl
    constructor
    · rw [map_updateWhere husername]
      exact id
    · intro u hu
      refine ⟨_, mem_updateWhere.mpr ⟨u, hu, rfl⟩, ?_⟩
      split
      · exact ⟨rfl, rfl⟩
      · exact ⟨rfl, rfl⟩
    · apply Nat.le_of_eq
      symm
      apply countP_updateWhere
      intro u _ _
      rfl

theorem runCreate_moved
    (h : runCreate s username password passwordHash = some (users, phase)) :
    Moved s ⟨.create username password passwordHash, .waiting⟩ users phase := by
  unfold runCreate at h
  split at h
  · rename_i hcreate
    cases h
    exact .answers (grown_create hcreate) nofun nofun
  · split at h
    · cases h
    · cases h
      exact .fails nofun
  · cases h
    exact .fails nofun

theorem runChange_moved {before : CallPhase} (hbefore : ∀ e, before ≠ .ended e)
    (h : runChange s username password passwordHash = some (users, phase)) :
    Moved s ⟨.change username password passwordHash, before⟩ users phase := by
  unfold runChange at h
  split at h
  · cases h
    exact .blocks _ hbefore
  · split at h
    · rename_i hchange
      cases h
      exact .answers (grown_change hchange) hbefore nofun
    · cases h
      exact .fails hbefore

theorem rerunChange_moved {holder : Nat}
    (h : rerunChange s holder username password passwordHash = some (users, phase)) :
    Moved s ⟨.change username password passwordHash, .blocked holder⟩ users phase := by
  unfold rerunChange at h
  split at h
  · cases h
    exact .answers (.refl _) nofun nofun
  · exact runChange_moved nofun h
  · cases h

theorem callStep_moved {move : AdminMove} (h : callStep s c move = some (users, phase)) :
    Moved s c users phase := by
  cases move with
  | run =>
      simp only [callStep] at h
      split at h
      · exact runCreate_moved h
      · exact runChange_moved nofun h
      · exact rerunChange_moved h
      · cases h
  | begin =>
      simp only [callStep] at h
      split at h
      · split at h
        · rename_i hname
          cases h
          exact .nameless rfl hname
        · rename_i hname
          cases h
          exact .begins rfl hname
      · cases h
  | lock =>
      simp only [callStep] at h
      split at h
      · rename_i hc
        split at h
        · rename_i hall
          cases h
          refine .locks hc fun d hd => ?_
          rw [of_decide_eq_true (List.all_eq_true.mp hall d hd)]
          nofun
        · cases h
      · cases h
  | target =>
      simp only [callStep] at h
      split at h
      · rename_i hc
        split at h
        · rename_i huser
          cases h
          exact .misses hc huser
        · rename_i huser
          cases h
          exact .targets hc huser
      · cases h
  | count =>
      simp only [callStep] at h
      split at h
      · rename_i hc
        split at h
        · cases h
          refine .fails fun e he => ?_
          rw [hc] at he
          cases he
        · split at h
          · rename_i hcount
            cases h
            exact .refuses hc hcount
          · rename_i hcount
            cases h
            exact .counts hc (by omega)
      · cases h
  | delete =>
      simp only [callStep] at h
      split at h
      · rename_i hc
        cases h
        exact .removes (.inl hc)
      · rename_i hc
        cases h
        exact .removes (.inr hc)
      · cases h
  | commit =>
      simp only [callStep] at h
      split at h
      · rename_i hc
        cases h
        exact .commits hc
      · cases h
  | fail =>
      simp only [callStep] at h
      split at h
      · cases h
      · rename_i hc
        cases h
        exact .fails hc

theorem adminStep_moved {a : AdminAction} (h : adminStep s a = some t) :
    ∃ c phase, s.calls[a.caller]? = some c ∧ Moved s c t.users phase ∧
      t.calls = s.calls.set a.caller { c with phase := phase } := by
  obtain ⟨c, hc, h⟩ := Option.bind_eq_some_iff.mp h
  obtain ⟨⟨users, phase⟩, hmove, h⟩ := Option.bind_eq_some_iff.mp h
  cases h
  exact ⟨c, phase, hc, callStep_moved hmove, rfl⟩

theorem Moved.not_ended (h : Moved s c users phase) (e : CallEnd) : c.phase ≠ .ended e := by
  cases h with
  | answers _ hc _ | blocks _ hc | fails hc => exact hc e
  | begins hc _ | nameless hc _ => rw [hc]; nofun
  | locks hc _ | targets hc _ | misses hc _ | counts hc _ | refuses hc _ | commits hc =>
      rw [hc]
      nofun
  | removes hc =>
      rcases hc with hc | hc
      · rw [hc]
        nofun
      · rw [hc]
        nofun

theorem Moved.users_eq (h : Moved s c users phase) :
    users = s.users ∨ phase = .ended .answered ∨ phase = .ended .deleted := by
  cases h with
  | answers _ _ _ => exact .inr (.inl rfl)
  | commits _ => exact .inr (.inr rfl)
  | blocks | fails | begins | nameless | locks | targets | misses | counts | refuses | removes =>
      exact .inl rfl

end Moves

/-! ## The count and the deletion -/

section Rows

variable {users : List DashboardUser} {u : DashboardUser} {name : Username} {username : String}

theorem administrators_pos : 0 < administrators users ↔ ∃ u ∈ users, u.enabled = true :=
  List.countP_pos_iff

theorem find?_username (h : users.find? (fun u => u.username = name) = some u) :
    u ∈ users ∧ u.username = name :=
  ⟨List.mem_of_find?_eq_some h, by simpa using List.find?_some h⟩

theorem administrators_delete_le (hunique : (users.map DashboardUser.username).Nodup)
    (name : Username) :
    administrators users ≤ administrators (deleteWhere (fun u => u.username = name) users) + 1 := by
  have hcount := countP_deleteWhere (fun u => decide (u.username = name))
    DashboardUser.enabled users
  have hone := countP_key_le_one hunique name DashboardUser.enabled
  unfold administrators
  omega

theorem administrators_delete_disabled (hunique : (users.map DashboardUser.username).Nodup)
    (hu : u ∈ users) (hname : u.username = name) (hdisabled : u.enabled = false) :
    administrators (deleteWhere (fun u => u.username = name) users) = administrators users := by
  have hzero : users.countP (fun v => decide (v.username = name) && v.enabled) = 0 := by
    rw [List.countP_eq_zero]
    intro v hv hboth
    rw [Bool.and_eq_true, decide_eq_true_eq] at hboth
    obtain rfl : v = u := List.inj_on_of_nodup_map hunique hv hu (hboth.1.trans hname.symm)
    rw [hdisabled] at hboth
    cases hboth.2
  have hcount := countP_deleteWhere (fun u => decide (u.username = name))
    DashboardUser.enabled users
  unfold administrators
  omega

theorem deleteDashboardUser_of_mem (hunique : (users.map DashboardUser.username).Nodup)
    (hname : normalizeUsername username = some name) (hu : u ∈ users)
    (huname : u.username = name) :
    deleteDashboardUser username users =
      if u.enabled && administrators users ≤ 1 then .error .lastAdministrator
      else .ok (deleteWhere (fun u => u.username = name) users, true) := by
  unfold deleteDashboardUser
  rw [hname]
  cases hfind : users.find? fun u => u.username = name with
  | none => exact absurd (decide_eq_true huname) (List.find?_eq_none.mp hfind u hu)
  | some v =>
      obtain ⟨hv, hvname⟩ := find?_username hfind
      obtain rfl : v = u := List.inj_on_of_nodup_map hunique hv hu (hvname.trans huname.symm)
      simp only [hfind]
      rfl

theorem deleteDashboardUser_of_find?_none (hname : normalizeUsername username = some name)
    (hfind : users.find? (fun u => u.username = name) = none) :
    deleteDashboardUser username users = .ok (users, false) := by
  unfold deleteDashboardUser
  rw [hname]
  simp only [hfind]

theorem deleteDashboardUser_refused {e : DashboardError}
    (h : deleteDashboardUser username users = .error e) : OnlyAdministrator users username := by
  unfold deleteDashboardUser at h
  split at h
  · cases h
  · rename_i name hname
    split at h
    · cases h
    · rename_i target htarget
      split at h
      · rename_i hlast
        rw [Bool.and_eq_true, decide_eq_true_eq, List.countP_eq_length_filter] at hlast
        obtain ⟨henabled, hcount⟩ := hlast
        obtain ⟨hmem, htargetname⟩ := find?_username htarget
        refine ⟨target, hmem, by rw [hname, htargetname], henabled, ?_⟩
        intro v hv hvenabled
        have hboth : ∀ w ∈ users, w.enabled = true → w ∈ users.filter DashboardUser.enabled :=
          fun w hw hwenabled => List.mem_filter.mpr ⟨hw, hwenabled⟩
        obtain ⟨w, hw⟩ : ∃ w, users.filter DashboardUser.enabled = [w] := by
          rw [← List.length_eq_one_iff]
          have hpos := List.length_pos_of_mem (hboth target hmem henabled)
          omega
        rw [hw] at hboth
        calc v = w := List.mem_singleton.mp (hboth v hv hvenabled)
          _ = target := (List.mem_singleton.mp (hboth target hmem henabled)).symm
      · cases h

theorem deleteDashboardUser_absent
    (h : deleteDashboardUser username users = .ok (users, false)) :
    ∀ u ∈ users, normalizeUsername username ≠ some u.username := by
  intro u hu hname
  unfold deleteDashboardUser at h
  rw [hname] at h
  cases hfind : users.find? fun v => v.username = u.username with
  | none => exact List.find?_eq_none.mp hfind u hu (decide_eq_true rfl)
  | some v =>
      simp only [hfind] at h
      split at h
      · cases h
      · exact Bool.noConfusion (congrArg Prod.snd (Except.ok.inj h))

end Rows

/-! ## The invariant -/

/-- What the transaction of a deletion has seen still holds of the committed rows. -/
def AdminCall.Sound (users : List DashboardUser) (c : AdminCall) : Prop :=
  match c.phase with
  | .targeted name enabled => ∃ u ∈ users, u.username = name ∧ u.enabled = enabled
  | .counted name => ∃ u ∈ users, u.username = name ∧ 2 ≤ administrators users
  | .removed name => ∃ u ∈ users, u.username = name ∧ (u.enabled = true → 2 ≤ administrators users)
  | _ => True

def CallPhase.name? : CallPhase → Option Username
  | .begun name | .locked name | .targeted name _ | .counted name | .removed name => some name
  | _ => none

def AdminCall.Named (c : AdminCall) : Prop :=
  ∀ name, c.phase.name? = some name →
    ∃ username, c.call = .delete username ∧ normalizeUsername username = some name

structure AdminInv (s : Admins) : Prop where
  unique : (s.users.map DashboardUser.username).Nodup
  administrator : 0 < administrators s.users
  exclusive : Exclusive AdminCall.lock s.calls
  sound : ∀ c ∈ s.calls, c.Sound s.users
  named : ∀ c ∈ s.calls, c.Named

section Invariant

variable {s t : Admins} {c d : AdminCall} {users users' : List DashboardUser} {phase : CallPhase}

theorem sound_of_unlocked (h : c.lock = none) : c.Sound users := by
  unfold AdminCall.lock at h
  unfold AdminCall.Sound
  cases hphase : c.phase with
  | targeted | counted | removed => rw [hphase] at h; cases h
  | waiting | blocked | begun | locked | ended => trivial

theorem AdminCall.Sound.grown (h : c.Sound users) (hgrown : Grown users users') :
    c.Sound users' := by
  unfold AdminCall.Sound at h ⊢
  cases hphase : c.phase with
  | targeted name enabled =>
      rw [hphase] at h
      obtain ⟨u, hu, hname, henabled⟩ := h
      obtain ⟨u', hu', hname', henabled'⟩ := hgrown.keeps u hu
      exact ⟨u', hu', hname'.trans hname, henabled'.trans henabled⟩
  | counted name =>
      rw [hphase] at h
      obtain ⟨u, hu, hname, hcount⟩ := h
      obtain ⟨u', hu', hname', -⟩ := hgrown.keeps u hu
      exact ⟨u', hu', hname'.trans hname, Nat.le_trans hcount hgrown.count⟩
  | removed name =>
      rw [hphase] at h
      obtain ⟨u, hu, hname, hcount⟩ := h
      obtain ⟨u', hu', hname', henabled'⟩ := hgrown.keeps u hu
      refine ⟨u', hu', hname'.trans hname, fun henabled => ?_⟩
      exact Nat.le_trans (hcount (henabled'.symm.trans henabled)) hgrown.count
  | waiting | blocked | begun | locked | ended => trivial

theorem Moved.unique (h : Moved s c users phase)
    (hunique : (s.users.map DashboardUser.username).Nodup) :
    (users.map DashboardUser.username).Nodup := by
  cases h with
  | answers hgrown _ _ => exact hgrown.unique hunique
  | commits _ => exact hunique.sublist (List.filter_sublist.map DashboardUser.username)
  | blocks | fails | begins | nameless | locks | targets | misses | counts | refuses | removes =>
      exact hunique

/-- The count of a deletion in progress leaves an administrator when its row goes. -/
theorem Moved.administrator (h : Moved s c users phase) (hs : AdminInv s) (hc : c ∈ s.calls) :
    0 < administrators users := by
  cases h with
  | answers hgrown _ _ => exact Nat.lt_of_lt_of_le hs.administrator hgrown.count
  | commits hphase =>
      rename_i name
      have hsound := hs.sound c hc
      unfold AdminCall.Sound at hsound
      rw [hphase] at hsound
      obtain ⟨u, hu, hname, hcount⟩ := hsound
      cases henabled : u.enabled with
      | false =>
          rw [administrators_delete_disabled hs.unique hu hname henabled]
          exact hs.administrator
      | true =>
          have hle := administrators_delete_le hs.unique name
          have htwo := hcount henabled
          omega
  | blocks | fails | begins | nameless | locks | targets | misses | counts | refuses | removes =>
      exact hs.administrator

theorem Moved.lock (h : Moved s c users phase) (k : Unit)
    (hk : AdminCall.lock { c with phase := phase } = some k) :
    c.lock = some k ∨ Free AdminCall.lock s.calls k := by
  unfold AdminCall.lock at hk ⊢
  cases h with
  | locks _ hfree => exact .inr hfree
  | targets hc _ | counts hc _ => rw [hc]; exact .inl rfl
  | removes hc =>
      rcases hc with hc | hc
      · rw [hc]
        exact .inl rfl
      · rw [hc]
        exact .inl rfl
  | answers | blocks | fails | begins | nameless | misses | refuses | commits => cases hk

theorem Moved.sound (h : Moved s c users phase) (hc : c.Sound s.users) :
    AdminCall.Sound users { c with phase := phase } := by
  unfold AdminCall.Sound at hc
  cases h with
  | targets _ huser =>
      obtain ⟨hmem, hname⟩ := find?_username huser
      exact ⟨_, hmem, hname, rfl⟩
  | counts hphase hcount =>
      rw [hphase] at hc
      obtain ⟨u, hu, hname, -⟩ := hc
      exact ⟨u, hu, hname, hcount⟩
  | removes hphase =>
      rcases hphase with hphase | hphase
      · rw [hphase] at hc
        obtain ⟨u, hu, hname, hdisabled⟩ := hc
        refine ⟨u, hu, hname, fun henabled => ?_⟩
        rw [hdisabled] at henabled
        cases henabled
      · rw [hphase] at hc
        obtain ⟨u, hu, hname, hcount⟩ := hc
        exact ⟨u, hu, hname, fun _ => hcount⟩
  | answers | blocks | fails | begins | nameless | locks | misses | refuses | commits => trivial

/-- The calls that do not move: of them, none has read the rows that a deletion takes away. -/
theorem Moved.others {i j : Nat} (h : Moved s c users phase) (hs : AdminInv s)
    (hc : s.calls[i]? = some c) (hd : s.calls[j]? = some d) (hne : i ≠ j) : d.Sound users := by
  have hsound := hs.sound d (List.mem_of_getElem? hd)
  cases h with
  | answers hgrown _ _ => exact hsound.grown hgrown
  | commits hphase =>
      apply sound_of_unlocked
      cases hlock : d.lock with
      | none => rfl
      | some k =>
          have hholds : c.lock = some k := by
            unfold AdminCall.lock
            rw [hphase]
          exact absurd (hs.exclusive i j c d k hc hd hholds hlock) hne
  | blocks | fails | begins | nameless | locks | targets | misses | counts | refuses | removes =>
      exact hsound

theorem Moved.named (h : Moved s c users phase) (hc : c.Named) :
    AdminCall.Named { c with phase := phase } := by
  intro name hname
  cases h with
  | begins hcall hnormal =>
      cases hname
      rw [hcall]
      exact ⟨_, rfl, hnormal⟩
  | locks hphase _ | targets hphase _ | counts hphase _ =>
      cases hname
      exact hc _ (by rw [hphase]; rfl)
  | removes hphase =>
      cases hname
      rcases hphase with hphase | hphase
      · exact hc _ (by rw [hphase]; rfl)
      · exact hc _ (by rw [hphase]; rfl)
  | answers | blocks | fails | nameless | misses | refuses | commits => cases hname

theorem AdminInv.step {a : AdminAction} (h : AdminInv s) (hstep : adminStep s a = some t) :
    AdminInv t := by
  obtain ⟨c, phase, hc, hmoved, hcalls⟩ := adminStep_moved hstep
  have hmem := List.mem_of_getElem? hc
  constructor
  · exact hmoved.unique h.unique
  · exact hmoved.administrator h hmem
  · rw [hcalls]
    exact h.exclusive.set hc hmoved.lock
  · rw [hcalls]
    intro d hd
    obtain ⟨j, hj⟩ := List.mem_iff_getElem?.mp hd
    by_cases hij : a.caller = j
    · subst hij
      rw [List.getElem?_set_self', hc] at hj
      cases hj
      exact hmoved.sound (h.sound c hmem)
    · rw [List.getElem?_set_ne hij] at hj
      exact hmoved.others h hc hj hij
  · rw [hcalls]
    intro d hd
    rcases List.mem_or_eq_of_mem_set hd with hd | rfl
    · exact h.named d hd
    · exact hmoved.named (h.named c hmem)

theorem Admins.Initial.inv (h : s.Initial) (hadmin : ∃ u ∈ s.users, u.enabled = true) :
    AdminInv s := by
  obtain ⟨hunique, hcalls⟩ := h
  have hlock : ∀ c ∈ s.calls, c.lock = none := by
    intro c hc
    unfold AdminCall.lock
    rw [hcalls c hc]
  refine ⟨hunique, administrators_pos.mpr hadmin, ?_, ?_, ?_⟩
  · intro i j a b k hi _ ha
    rw [hlock a (List.mem_of_getElem? hi)] at ha
    cases ha
  · intro c hc
    exact sound_of_unlocked (hlock c hc)
  · intro c hc name hname
    rw [hcalls c hc] at hname
    cases hname

end Invariant

/-! ## The answers -/

/-- The answer of a deletion is that of `deleteDashboardUser` on the committed rows. -/
def Answers (username : String) (users users' : List DashboardUser) : CallEnd → Prop
  | .deleted => deleteDashboardUser username users = .ok (users', true)
  | .absent => deleteDashboardUser username users = .ok (users, false) ∧ users' = users
  | .refused =>
      deleteDashboardUser username users = .error .lastAdministrator ∧ users' = users
  | .failed => users' = users
  | .answered => False

section Ends

variable {s t : Admins} {c : AdminCall} {users : List DashboardUser} {username : String}

theorem AdminInv.answers {e : CallEnd} (h : AdminInv s) (hc : c ∈ s.calls)
    (hcall : c.call = .delete username) (hmoved : Moved s c users (.ended e)) :
    Answers username s.users users e := by
  have hsound := h.sound c hc
  have hnormal : ∀ name, c.phase.name? = some name → normalizeUsername username = some name := by
    intro name hname
    obtain ⟨username', hcall', hnormal⟩ := h.named c hc name hname
    rw [hcall'] at hcall
    cases hcall
    exact hnormal
  unfold AdminCall.Sound at hsound
  cases hmoved with
  | answers _ _ hother => exact absurd hcall (hother username)
  | fails _ => rfl
  | nameless hwaiting hname =>
      rw [hwaiting] at hcall
      cases hcall
      refine ⟨?_, rfl⟩
      unfold deleteDashboardUser
      rw [hname]
  | misses hphase huser =>
      exact ⟨deleteDashboardUser_of_find?_none (hnormal _ (by rw [hphase]; rfl)) huser, rfl⟩
  | refuses hphase hcount =>
      rw [hphase] at hsound
      obtain ⟨u, hu, hname, henabled⟩ := hsound
      refine ⟨?_, rfl⟩
      rw [deleteDashboardUser_of_mem h.unique (hnormal _ (by rw [hphase]; rfl)) hu hname]
      exact if_pos (Bool.and_eq_true_iff.mpr ⟨henabled, decide_eq_true hcount⟩)
  | commits hphase =>
      rw [hphase] at hsound
      obtain ⟨u, hu, hname, hcount⟩ := hsound
      show deleteDashboardUser username s.users = _
      rw [deleteDashboardUser_of_mem h.unique (hnormal _ (by rw [hphase]; rfl)) hu hname]
      apply if_neg
      rw [Bool.and_eq_true, decide_eq_true_eq]
      rintro ⟨henabled, hone⟩
      have htwo := hcount henabled
      omega

/-- A deletion that ends does so as one statement on the committed rows would. -/
def AnswersAtOnce (s : Admins) (a : AdminAction) (t : Admins) : Prop :=
  ∀ c username e, t.calls[a.caller]? = some c → c.call = .delete username →
    c.phase = .ended e → Answers username s.users t.users e

theorem AdminInv.answersAtOnce {a : AdminAction} (h : AdminInv s)
    (hstep : adminStep s a = some t) : AnswersAtOnce s a t := by
  intro d username e hd hcall hphase
  obtain ⟨c, phase, hc, hmoved, hcalls⟩ := adminStep_moved hstep
  rw [hcalls, List.getElem?_set_self', hc] at hd
  cases hd
  cases hphase
  exact h.answers (List.mem_of_getElem? hc) hcall hmoved

/-! ## Calls that have ended -/

theorem adminStep_ended {a : AdminAction} {i : Nat} {e : CallEnd}
    (hstep : adminStep s a = some t) (hc : s.calls[i]? = some c) (hphase : c.phase = .ended e) :
    t.calls[i]? = some c := by
  obtain ⟨d, phase, hd, hmoved, hcalls⟩ := adminStep_moved hstep
  rw [hcalls]
  by_cases hi : a.caller = i
  · subst hi
    rw [hc] at hd
    cases hd
    exact absurd hphase (hmoved.not_ended e)
  · rw [List.getElem?_set_ne hi]
    exact hc

theorem exec_ended {actions : List AdminAction} {i : Nat} {e : CallEnd}
    (hrun : exec adminStep s actions = some t) (hc : s.calls[i]? = some c)
    (hphase : c.phase = .ended e) : t.calls[i]? = some c := by
  refine exec_invariant (I := fun s => s.calls[i]? = some c) (C := fun _ _ _ => True) ?_ hc ?_ hrun
  · intro s a t hs _ hstep
    exact adminStep_ended hstep hs hphase
  · exact everyStep_of_forall_mem (Q := fun _ => True) fun _ _ => trivial

/-- A call that does not end well has left the rows alone all along. -/
theorem unchanged_of_ended {actions : List AdminAction} {u : Admins} {i : Nat} {e : CallEnd}
    (hrun : exec adminStep s actions = some u) (hc : u.calls[i]? = some c)
    (hphase : c.phase = .ended e) (hanswered : e ≠ .answered) (hdeleted : e ≠ .deleted) :
    EveryStep adminStep (fun s a t => a.caller = i → t.users = s.users) s actions := by
  induction actions generalizing s with
  | nil => trivial
  | cons a actions ih =>
      intro t hstep
      obtain ⟨t', hstep', hrest⟩ := exec_cons_eq_some.mp hrun
      obtain rfl : t' = t := Option.some.inj (hstep'.symm.trans hstep)
      refine ⟨?_, ih hrest⟩
      rintro rfl
      obtain ⟨d, phase, hd, hmoved, hcalls⟩ := adminStep_moved hstep
      -- a step that changes the rows is the last of its call
      have hlast : ∀ e', phase = .ended e' → e' = e := by
        rintro e' rfl
        have hset : t'.calls[a.caller]? = some { d with phase := .ended e' } := by
          rw [hcalls, List.getElem?_set_self', hd]
          rfl
        have hstays := exec_ended hrest hset rfl
        rw [hc] at hstays
        cases hstays
        cases hphase
        rfl
      rcases hmoved.users_eq with hsame | hended | hended
      · exact hsame
      · exact absurd (hlast _ hended).symm hanswered
      · exact absurd (hlast _ hended).symm hdeleted

end Ends

/-! ## The administrators of a run -/

structure AdministratorsKept (s : Admins) (actions : List AdminAction) : Prop where
  administrator : EveryStep adminStep (fun _ _ t => ∃ u ∈ t.users, u.enabled = true) s actions
  /-- A deletion that is refused or fails changes nothing. -/
  harmless : ∀ u i c username, exec adminStep s actions = some u → u.calls[i]? = some c →
    c.call = .delete username → (c.phase = .ended .refused ∨ c.phase = .ended .failed) →
    EveryStep adminStep (fun s a t => a.caller = i → t.users = s.users) s actions
  /-- The step that refuses a deletion finds its user the only one that is enabled. -/
  refused : EveryStep adminStep (fun s a t => ∀ c username, t.calls[a.caller]? = some c →
    c.call = .delete username → c.phase = .ended .refused → OnlyAdministrator s.users username)
    s actions
  /-- `false` is the answer for no user of the name. -/
  absent : EveryStep adminStep (fun s a t => ∀ c username, t.calls[a.caller]? = some c →
    c.call = .delete username → c.phase = .ended .absent →
    ∀ u ∈ s.users, normalizeUsername username ≠ some u.username) s actions

/-- From any table with an enabled user, in every interleaving. -/
theorem last_administrator_survives {s : Admins} {actions : List AdminAction} (hinit : s.Initial)
    (hadmin : ∃ u ∈ s.users, u.enabled = true) : AdministratorsKept s actions := by
  have hkeeps : EveryStep adminStep (fun s a t => AdminInv t ∧ AnswersAtOnce s a t) s actions := by
    refine everyStep_of_invariant (I := AdminInv) (C := fun _ _ _ => True) ?_ ?_
      (hinit.inv hadmin) (everyStep_of_forall_mem (Q := fun _ => True) fun _ _ => trivial)
    · intro s a t hs _ hstep
      exact hs.step hstep
    · intro s a t hs _ hstep
      exact ⟨hs.step hstep, hs.answersAtOnce hstep⟩
  refine ⟨?_, ?_, ?_, ?_⟩
  · apply hkeeps.mono
    intro s a t _ h
    exact administrators_pos.mp h.1.administrator
  · intro u i c username hrun hc _ hend
    rcases hend with hend | hend
    · exact unchanged_of_ended hrun hc hend nofun nofun
    · exact unchanged_of_ended hrun hc hend nofun nofun
  · apply hkeeps.mono
    intro s a t _ h c username hc hcall hphase
    exact deleteDashboardUser_refused (h.2 c username .refused hc hcall hphase).1
  · apply hkeeps.mono
    intro s a t _ h c username hc hcall hphase
    exact deleteDashboardUser_absent (h.2 c username .absent hc hcall hphase).1

def twoAdministrators : Admins where
  users := ["alice", "bobby"].filterMap fun name =>
    (normalizeUsername name).map fun username =>
      ⟨username, "scrypt$v1", .storageAdmin, rfl, true, 1, Nat.one_pos⟩
  calls := [⟨.delete "bobby", .waiting⟩, ⟨.delete " Alice", .waiting⟩]

def crossedDeletions : List AdminAction :=
  [⟨0, .begin⟩, ⟨1, .begin⟩, ⟨0, .lock⟩, ⟨0, .target⟩, ⟨0, .count⟩, ⟨0, .delete⟩, ⟨0, .commit⟩,
    ⟨1, .lock⟩, ⟨1, .target⟩, ⟨1, .count⟩]

theorem last_administrator_survives_crossed :
    (exec adminStep twoAdministrators crossedDeletions).map
        (fun u => u.calls.map AdminCall.phase) = some [.ended .deleted, .ended .refused] ∧
      AdministratorsKept twoAdministrators crossedDeletions :=
  ⟨by decide +kernel, last_administrator_survives (by decide +kernel) (by decide +kernel)⟩

end ExternalStorage.Dashboard
