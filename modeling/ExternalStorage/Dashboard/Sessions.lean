import ExternalStorage.Library.Runs
import ExternalStorage.Model.Dashboard

/-!
# Revoked dashboard sessions

A password change raises the version that a token must carry; a deletion takes the row away
and with it the version.  A username that is created again starts at version 1, below the
tokens of its earlier life.
-/

namespace ExternalStorage.Dashboard

open ExternalStorage.Model Library.Table Library.Runs

/-! ## The machine -/

structure Sessions where
  users : List DashboardUser
  /-- The logins that have read their user and not signed the token. -/
  logins : List DashboardUser := []
  /-- The tokens signed since the last password change or deletion of their username. -/
  issued : List StorageJWTPayload := []
  /-- The tokens signed before one. -/
  revoked : List StorageJWTPayload := []

inductive SessionAction where
  | create (username password passwordHash : String)
  | change (username password passwordHash : String)
  | delete (username : String)
  /-- A login checks the credentials. -/
  | login (username : String) (valid : Bool)
  /-- The `i`-th login in progress signs its token. -/
  | sign (i : Nat)

def StorageJWTPayload.isFor (name : Username) (t : StorageJWTPayload) : Bool :=
  normalizeUsername t.sub = some name

def Sessions.revoke (s : Sessions) (username : String) : Sessions :=
  match normalizeUsername username with
  | none => s
  | some name => { s with
      issued := s.issued.filter fun t => !StorageJWTPayload.isFor name t
      revoked := s.revoked ++ s.issued.filter (StorageJWTPayload.isFor name) }

def Sessions.step (s : Sessions) : SessionAction → Option Sessions
  | .create username password passwordHash =>
      match createDashboardUser username password passwordHash s.users with
      | .ok (users, _) => some { s with users := users }
      | .error _ => some s
  | .change username password passwordHash =>
      match changeDashboardUserPassword username password passwordHash s.users with
      | .ok (users, some _) => some { s.revoke username with users := users }
      | _ => some s
  | .delete username =>
      match deleteDashboardUser username s.users with
      | .ok (users, true) => some { s.revoke username with users := users }
      | _ => some s
  | .login username valid =>
      match verifyDashboardCredentials s.users username valid with
      | some user => some { s with logins := s.logins ++ [user] }
      | none => some s
  | .sign i => do
      let user ← s.logins[i]?
      some { s with logins := s.logins.eraseIdx i, issued := s.issued ++ [loginToken user] }

/-- No token has been signed and no login is in progress. -/
def Sessions.Initial (s : Sessions) : Prop :=
  (s.users.map DashboardUser.username).Nodup ∧ s.logins = [] ∧ s.issued = [] ∧ s.revoked = []

/-- No token from before a password change or a deletion of its username is accepted. -/
def Sessions.RevokedRejected (s : Sessions) : Prop :=
  ∀ t ∈ s.revoked, isDashboardSessionActive s.users t = false

/-- The token carries no version from `v` on that the session check would take. -/
def Stale (v : Nat) (t : StorageJWTPayload) : Prop :=
  ∀ n ∈ t.authVersion, isSafeInteger n = true → n < v

/-- For this username the revoked tokens are below version `v`, the others and those still to
be signed not above it. -/
def Sessions.UpTo (s : Sessions) (name : Username) (v : Nat) : Prop :=
  (∀ t ∈ s.revoked, StorageJWTPayload.isFor name t = true → Stale v t) ∧
    (∀ t ∈ s.issued, StorageJWTPayload.isFor name t = true → Stale (v + 1) t) ∧
    ∀ user ∈ s.logins, user.username = name → Stale (v + 1) (loginToken user)

/-- A username is created only when version 1 is above all its revoked tokens and not below
any other. -/
def FreshNames (s : Sessions) (a : SessionAction) (_ : Sessions) : Prop :=
  match a with
  | .create username password passwordHash =>
      (createDashboardUser username password passwordHash s.users).isOk = true →
        ∀ name ∈ normalizeUsername username, s.UpTo name 1
  | _ => True

instance (v : Nat) (t : StorageJWTPayload) : Decidable (Stale v t) :=
  inferInstanceAs (Decidable (∀ n ∈ t.authVersion, isSafeInteger n = true → n < v))

instance (s : Sessions) : Decidable s.Initial :=
  inferInstanceAs (Decidable (_ ∧ _ ∧ _ ∧ _))

instance (s : Sessions) : Decidable s.RevokedRejected :=
  inferInstanceAs (Decidable (∀ t ∈ s.revoked, isDashboardSessionActive s.users t = false))

instance (s : Sessions) (name : Username) (v : Nat) : Decidable (s.UpTo name v) :=
  inferInstanceAs (Decidable ((∀ t ∈ s.revoked, _) ∧ (∀ t ∈ s.issued, _) ∧
    ∀ user ∈ s.logins, _))

instance (s : Sessions) (a : SessionAction) (t : Sessions) : Decidable (FreshNames s a t) :=
  match a with
  | .create username password passwordHash =>
      inferInstanceAs (Decidable
        ((createDashboardUser username password passwordHash s.users).isOk = true →
          ∀ name ∈ normalizeUsername username, s.UpTo name 1))
  | .change _ _ _ => isTrue trivial
  | .delete _ => isTrue trivial
  | .login _ _ => isTrue trivial
  | .sign _ => isTrue trivial

/-! ## Names and versions -/

theorem usernameRest_lt {c : Char} (h : usernameRest c = true) : c.toNat < 128 := by
  simp only [usernameRest, usernameFirst, Bool.or_eq_true, Bool.and_eq_true, decide_eq_true_eq,
    Char.le_def, UInt32.le_iff_toNat_le] at h
  have hval : c.toNat = c.val.toNat := rfl
  have hz : 'z'.val.toNat = 122 := rfl
  have h9 : '9'.val.toNat = 57 := rfl
  rcases h with (((⟨-, h⟩ | ⟨-, h⟩) | rfl) | rfl) | rfl
  · omega
  · omega
  all_goals decide

theorem usernameRest_normal {c : Char} (h : usernameRest c = true) :
    jsWhitespace c = false ∧ jsLower c = c := by
  have hall : ∀ n < 128, usernameRest (Char.ofNat n) = true →
      jsWhitespace (Char.ofNat n) = false ∧ jsLower (Char.ofNat n) = Char.ofNat n := by
    decide +kernel
  have hc := hall c.toNat (usernameRest_lt h)
  rw [Char.ofNat_toNat] at hc
  exact hc h

theorem usernameFormat_rest {cs : List Char} (h : usernameFormat cs = true) :
    ∀ c ∈ cs, usernameRest c = true := by
  cases cs with
  | nil => cases h
  | cons c cs =>
      simp only [usernameFormat, Bool.and_eq_true, List.all_eq_true] at h
      intro d hd
      rcases List.mem_cons.mp hd with rfl | hd
      · simp [usernameRest, h.1.1.1]
      · exact h.1.1.2 d hd

theorem dropWhile_whitespace {cs : List Char} (h : ∀ c ∈ cs, usernameRest c = true) :
    cs.dropWhile jsWhitespace = cs := by
  cases cs with
  | nil => rfl
  | cons c cs =>
      rw [List.dropWhile_cons_of_neg]
      rw [(usernameRest_normal (h c List.mem_cons_self)).1]
      decide

@[simp] theorem normalizeUsername_val (name : Username) : normalizeUsername name.val = some name := by
  have hrest := usernameFormat_rest name.property
  have htrim : jsTrim name.val.toList = name.val.toList := by
    unfold jsTrim
    rw [dropWhile_whitespace hrest, dropWhile_whitespace, List.reverse_reverse]
    intro c hc
    exact hrest c (List.mem_reverse.mp hc)
  have hlower : name.val.toList.map jsLower = name.val.toList := by
    conv_rhs => rw [← List.map_id name.val.toList]
    apply List.map_congr_left
    intro c hc
    exact (usernameRest_normal (hrest c hc)).2
  unfold normalizeUsername
  simp only [htrim, hlower, String.ofList_toList, name.property, dif_pos]

theorem isFor_loginToken {user : DashboardUser} {name : Username} :
    StorageJWTPayload.isFor name (loginToken user) = true ↔ user.username = name := by
  simp [StorageJWTPayload.isFor, loginToken, signOperatorToken]

theorem toNumber_of_lt {n : Nat} (h : n < 2 ^ 53) : toNumber n = n := by
  have hsize : n.size - 53 = 0 := Nat.sub_eq_zero_of_le (Nat.size_le.mpr h)
  unfold toNumber
  rw [hsize]
  simp [Nat.mod_one]

theorem toNumber_safe {n : Nat} (h : isSafeInteger (toNumber n) = true) : n < 2 ^ 53 := by
  by_contra hn
  have hle : 2 ^ 53 ≤ n := Nat.le_of_not_lt hn
  have hsize : 53 < n.size := Nat.lt_size.mpr hle
  have hunit : 2 ^ (n.size - 1) ≤ n := Nat.lt_size.mp (by omega)
  have hquot : 2 ^ 52 ≤ n / 2 ^ (n.size - 53) := by
    rw [Nat.le_div_iff_mul_le (Nat.two_pow_pos _), ← Nat.pow_add]
    calc 2 ^ (52 + (n.size - 53)) = 2 ^ (n.size - 1) := by congr 1; omega
      _ ≤ n := hunit
  have htwo : 2 ≤ 2 ^ (n.size - 53) := by
    calc 2 = 2 ^ 1 := rfl
      _ ≤ 2 ^ (n.size - 53) := Nat.pow_le_pow_right (by decide) (by omega)
  have hlow : 2 ^ 53 ≤ n / 2 ^ (n.size - 53) * 2 ^ (n.size - 53) :=
    calc 2 ^ 53 = 2 ^ 52 * 2 := rfl
      _ ≤ n / 2 ^ (n.size - 53) * 2 ^ (n.size - 53) := Nat.mul_le_mul hquot htwo
  have hnumber : 2 ^ 53 ≤ toNumber n := by
    unfold toNumber
    dsimp only
    split
    · exact hlow
    · rw [Nat.succ_mul]
      exact Nat.le_trans hlow (Nat.le_add_right _ _)
  simp only [isSafeInteger, decide_eq_true_eq] at h
  omega

theorem Stale.mono {v w : Nat} {t : StorageJWTPayload} (h : Stale v t) (hvw : v ≤ w) :
    Stale w t := by
  intro n hn hsafe
  exact Nat.lt_of_lt_of_le (h n hn hsafe) hvw

theorem stale_loginToken (user : DashboardUser) :
    Stale (user.authVersion + 1) (loginToken user) := by
  intro n hn hsafe
  obtain rfl : toNumber user.authVersion = n := Option.some.inj hn
  rw [toNumber_of_lt (toNumber_safe hsafe)]
  exact Nat.lt_succ_self _

theorem inactive_of_stale {users : List DashboardUser} {t : StorageJWTPayload}
    (h : ∀ u ∈ users, StorageJWTPayload.isFor u.username t = true → Stale u.authVersion t) :
    isDashboardSessionActive users t = false := by
  by_contra hactive
  simp only [isDashboardSessionActive, getDashboardUser] at hactive
  split at hactive
  · exact hactive rfl
  · rename_i hkind
    simp only [Bool.not_eq_false, Option.any_eq_true, Option.bind_eq_bind,
      Option.bind_eq_some_iff, Bool.and_eq_true, decide_eq_true_eq] at hactive
    obtain ⟨u, ⟨name, hname, hfind⟩, -, hversion⟩ := hactive
    have hu : u.username = name := by simpa using List.find?_some hfind
    have hsafe : isSafeInteger (toNumber u.authVersion) = true := by
      have hany : t.authVersion.any isSafeInteger = true := by
        by_contra hno
        exact hkind (by simp [Bool.not_eq_true _ ▸ hno])
      rw [← hversion] at hany
      exact hany
    have hlt := h u (List.mem_of_find?_eq_some hfind) (by rw [StorageJWTPayload.isFor, hname, hu]; simp)
      (toNumber u.authVersion) hversion.symm hsafe
    rw [toNumber_of_lt (toNumber_safe hsafe)] at hlt
    exact Nat.lt_irrefl _ hlt

/-! ## What a call does -/

theorem createDashboardUser_eq_ok {username password passwordHash : String}
    {users users' : List DashboardUser} {user : DashboardUser}
    (h : createDashboardUser username password passwordHash users = .ok (users', user)) :
    ∃ name, normalizeUsername username = some name ∧ (∀ u ∈ users, u.username ≠ name) ∧
      users' = users ++ [user] ∧ user.username = name ∧ user.enabled = true ∧
      user.authVersion = 1 := by
  unfold createDashboardUser at h
  split at h
  · cases h
  · rename_i name hname
    cases hvalid : validatePassword password with
    | error e => rw [hvalid] at h; cases h
    | ok _ =>
        rw [hvalid] at h
        change (if _ then _ else _) = _ at h
        split at h
        · cases h
        · rename_i hany
          cases h
          refine ⟨name, hname, ?_, rfl, rfl, rfl, rfl⟩
          intro u hu hname
          exact hany (List.any_eq_true.mpr ⟨u, hu, decide_eq_true hname⟩)

theorem changeDashboardUserPassword_cases {username password passwordHash : String}
    {users users' : List DashboardUser} {found : Option DashboardUser}
    (h : changeDashboardUserPassword username password passwordHash users = .ok (users', found)) :
    (users' = users ∧ found = none) ∨
      ∃ name, normalizeUsername username = some name ∧
        users' = updateWhere (fun u => u.username = name)
          (DashboardUser.withPassword passwordHash) users := by
  unfold changeDashboardUserPassword at h
  split at h
  · cases h
    exact .inl ⟨rfl, rfl⟩
  · rename_i name hname
    cases hvalid : validatePassword password with
    | error e => rw [hvalid] at h; cases h
    | ok _ =>
        rw [hvalid] at h
        change (if _ then _ else _) = _ at h
        split at h
        · cases h
        · exact .inr ⟨name, hname, (congrArg Prod.fst (Except.ok.inj h)).symm⟩

theorem changeDashboardUserPassword_eq_ok {username password passwordHash : String}
    {users users' : List DashboardUser} {user : DashboardUser}
    (h : changeDashboardUserPassword username password passwordHash users =
      .ok (users', some user)) :
    ∃ name, normalizeUsername username = some name ∧
      users' = updateWhere (fun u => u.username = name)
        (DashboardUser.withPassword passwordHash) users := by
  rcases changeDashboardUserPassword_cases h with ⟨-, hnone⟩ | hrows
  · cases hnone
  · exact hrows

theorem deleteDashboardUser_eq_ok {username : String} {users users' : List DashboardUser}
    (h : deleteDashboardUser username users = .ok (users', true)) :
    ∃ name, normalizeUsername username = some name ∧
      users' = deleteWhere (fun u => u.username = name) users := by
  unfold deleteDashboardUser at h
  split at h
  · cases h
  · rename_i name hname
    split at h
    · cases h
    · split at h
      · cases h
      · cases h
        exact ⟨name, hname, rfl⟩

theorem verifyDashboardCredentials_mem {users : List DashboardUser} {username : String}
    {valid : Bool} {user : DashboardUser}
    (h : verifyDashboardCredentials users username valid = some user) : user ∈ users := by
  simp only [verifyDashboardCredentials, getDashboardUser, Option.bind_eq_bind,
    Option.bind_eq_some_iff] at h
  obtain ⟨u, ⟨name, -, hfind⟩, hu⟩ := h
  split at hu
  · cases hu
  · cases hu
    exact List.mem_of_find?_eq_some hfind

/-! ## The invariant -/

structure SessionInv (s : Sessions) : Prop where
  unique : (s.users.map DashboardUser.username).Nodup
  upTo : ∀ u ∈ s.users, s.UpTo u.username u.authVersion

variable {s t : Sessions} {username : String} {name other : Username} {v : Nat}

theorem withUsers_upTo {users : List DashboardUser} :
    Sessions.UpTo { s with users := users } name v ↔ s.UpTo name v :=
  Iff.rfl

theorem isFor_unique {token : StorageJWTPayload} (h : StorageJWTPayload.isFor name token = true)
    (h' : StorageJWTPayload.isFor other token = true) : name = other := by
  simp only [StorageJWTPayload.isFor, decide_eq_true_eq] at h h'
  exact Option.some.inj (h.symm.trans h')

/-- After a revocation every token signed so far is below the next version. -/
theorem revoke_upTo (hname : normalizeUsername username = some name) (h : s.UpTo name v) :
    (s.revoke username).UpTo name (v + 1) := by
  obtain ⟨hrevoked, hissued, hlogins⟩ := h
  unfold Sessions.revoke
  rw [hname]
  refine ⟨?_, ?_, ?_⟩
  · intro token htoken hfor
    rcases List.mem_append.mp htoken with htoken | htoken
    · exact (hrevoked token htoken hfor).mono (Nat.le_succ v)
    · exact hissued token (List.mem_filter.mp htoken).1 hfor
  · intro token htoken hfor
    have hnot := (List.mem_filter.mp htoken).2
    rw [hfor] at hnot
    cases hnot
  · intro user huser hfor
    exact (hlogins user huser hfor).mono (Nat.le_succ _)

theorem revoke_upTo_other (hname : normalizeUsername username = some name) (hne : other ≠ name)
    (h : s.UpTo other v) : (s.revoke username).UpTo other v := by
  obtain ⟨hrevoked, hissued, hlogins⟩ := h
  unfold Sessions.revoke
  rw [hname]
  refine ⟨?_, ?_, hlogins⟩
  · intro token htoken hfor
    rcases List.mem_append.mp htoken with htoken | htoken
    · exact hrevoked token htoken hfor
    · exact absurd (isFor_unique hfor (List.mem_filter.mp htoken).2) hne
  · intro token htoken hfor
    exact hissued token (List.mem_filter.mp htoken).1 hfor

theorem SessionInv.create {password passwordHash : String} {users : List DashboardUser}
    {user : DashboardUser} (h : SessionInv s)
    (hfresh : ∀ name ∈ normalizeUsername username, s.UpTo name 1)
    (hcreate : createDashboardUser username password passwordHash s.users = .ok (users, user)) :
    SessionInv { s with users := users } := by
  obtain ⟨name, hname, hfree, rfl, huser, -, hversion⟩ := createDashboardUser_eq_ok hcreate
  constructor
  · rw [List.map_append, List.nodup_append]
    refine ⟨h.unique, List.nodup_singleton _, ?_⟩
    intro a ha b hb hab
    obtain ⟨u, hu, rfl⟩ := List.mem_map.mp ha
    obtain rfl : b = user.username := by simpa using hb
    exact hfree u hu (hab.trans huser)
  · intro u hu
    rcases List.mem_append.mp hu with hu | hu
    · exact h.upTo u hu
    · obtain rfl : u = user := List.mem_singleton.mp hu
      rw [huser, hversion]
      exact hfresh name hname

theorem SessionInv.change {password passwordHash : String} {users : List DashboardUser}
    {user : DashboardUser} (h : SessionInv s)
    (hchange : changeDashboardUserPassword username password passwordHash s.users =
      .ok (users, some user)) :
    SessionInv { s.revoke username with users := users } := by
  obtain ⟨name, hname, rfl⟩ := changeDashboardUserPassword_eq_ok hchange
  constructor
  · have hkeys : ∀ u : DashboardUser,
        (u.withPassword passwordHash).username = u.username := by
      intro u
      rfl
    exact (map_updateWhere hkeys s.users).symm ▸ h.unique
  · intro u hu
    obtain ⟨u₀, hu₀, rfl⟩ := mem_updateWhere.mp hu
    by_cases hu₀name : u₀.username = name
    · rw [if_pos (decide_eq_true hu₀name)]
      rw [withUsers_upTo]
      subst hu₀name
      exact revoke_upTo hname (h.upTo u₀ hu₀)
    · rw [if_neg (by simpa using hu₀name), withUsers_upTo]
      exact revoke_upTo_other hname hu₀name (h.upTo u₀ hu₀)

theorem SessionInv.delete {users : List DashboardUser} (h : SessionInv s)
    (hdelete : deleteDashboardUser username s.users = .ok (users, true)) :
    SessionInv { s.revoke username with users := users } := by
  obtain ⟨name, hname, rfl⟩ := deleteDashboardUser_eq_ok hdelete
  constructor
  · have hsub : (deleteWhere (fun u : DashboardUser => u.username = name) s.users).Sublist s.users :=
      List.filter_sublist
    exact h.unique.sublist (hsub.map DashboardUser.username)
  · intro u hu
    obtain ⟨hu, hne⟩ := mem_deleteWhere.mp hu
    rw [withUsers_upTo]
    exact revoke_upTo_other hname (by simpa using hne) (h.upTo u hu)

theorem SessionInv.login {user : DashboardUser} (h : SessionInv s) (huser : user ∈ s.users) :
    SessionInv { s with logins := s.logins ++ [user] } := by
  refine ⟨h.unique, ?_⟩
  intro u hu
  obtain ⟨hrevoked, hissued, hlogins⟩ := h.upTo u hu
  refine ⟨hrevoked, hissued, ?_⟩
  intro l hl hfor
  rcases List.mem_append.mp hl with hl | hl
  · exact hlogins l hl hfor
  · obtain rfl : l = user := List.mem_singleton.mp hl
    obtain rfl : l = u := List.inj_on_of_nodup_map h.unique huser hu hfor
    exact stale_loginToken l

theorem SessionInv.sign {i : Nat} {user : DashboardUser} (h : SessionInv s)
    (huser : s.logins[i]? = some user) :
    SessionInv { s with
      logins := s.logins.eraseIdx i, issued := s.issued ++ [loginToken user] } := by
  refine ⟨h.unique, ?_⟩
  intro u hu
  obtain ⟨hrevoked, hissued, hlogins⟩ := h.upTo u hu
  refine ⟨hrevoked, ?_, ?_⟩
  · intro token htoken hfor
    rcases List.mem_append.mp htoken with htoken | htoken
    · exact hissued token htoken hfor
    · obtain rfl : token = loginToken user := List.mem_singleton.mp htoken
      exact hlogins user (List.mem_of_getElem? huser) (isFor_loginToken.mp hfor)
  · intro l hl hfor
    exact hlogins l (List.mem_of_mem_eraseIdx hl) hfor

theorem SessionInv.step {a : SessionAction} (h : SessionInv s) (hfresh : FreshNames s a t)
    (hstep : s.step a = some t) : SessionInv t := by
  cases a with
  | create username password passwordHash =>
      simp only [Sessions.step] at hstep
      split at hstep
      · rename_i users user hcreate
        cases hstep
        exact h.create (hfresh (by rw [hcreate]; rfl)) hcreate
      · cases hstep
        exact h
  | change username password passwordHash =>
      simp only [Sessions.step] at hstep
      split at hstep
      · rename_i hchange
        cases hstep
        exact h.change hchange
      · cases hstep
        exact h
  | delete username =>
      simp only [Sessions.step] at hstep
      split at hstep
      · rename_i hdelete
        cases hstep
        exact h.delete hdelete
      · cases hstep
        exact h
  | login username valid =>
      simp only [Sessions.step] at hstep
      split at hstep
      · rename_i hverify
        cases hstep
        exact h.login (verifyDashboardCredentials_mem hverify)
      · cases hstep
        exact h
  | sign i =>
      obtain ⟨user, huser, hstep⟩ := Option.bind_eq_some_iff.mp hstep
      cases hstep
      exact h.sign huser

theorem SessionInv.rejected (h : SessionInv s) : s.RevokedRejected := by
  intro token htoken
  apply inactive_of_stale
  intro u hu hfor
  exact (h.upTo u hu).1 token htoken hfor

theorem Sessions.Initial.inv (h : s.Initial) : SessionInv s := by
  obtain ⟨hunique, hlogins, hissued, hrevoked⟩ := h
  refine ⟨hunique, ?_⟩
  intro u _
  refine ⟨?_, ?_, ?_⟩
  · rw [hrevoked]
    intro token htoken
    cases htoken
  · rw [hissued]
    intro token htoken
    cases htoken
  · rw [hlogins]
    intro l hl
    cases hl

/-! ## A name that is created too early -/

/-- Every token is an operator token: nothing else is signed for a login. -/
def Sessions.OperatorTokens (s : Sessions) : Prop :=
  (∀ t ∈ s.issued, t.kind = .operator) ∧ ∀ t ∈ s.revoked, t.kind = .operator

theorem Sessions.OperatorTokens.withUsers (h : s.OperatorTokens) (users : List DashboardUser) :
    Sessions.OperatorTokens { s with users := users } :=
  h

theorem Sessions.OperatorTokens.revoke (h : s.OperatorTokens) (username : String) :
    (s.revoke username).OperatorTokens := by
  unfold Sessions.revoke
  split
  · exact h
  · refine ⟨fun t ht => h.1 t (List.mem_filter.mp ht).1, ?_⟩
    intro t ht
    rcases List.mem_append.mp ht with ht | ht
    · exact h.2 t ht
    · exact h.1 t (List.mem_filter.mp ht).1

theorem Sessions.OperatorTokens.step {a : SessionAction} (h : s.OperatorTokens)
    (hstep : s.step a = some t) : t.OperatorTokens := by
  cases a with
  | create username password passwordHash =>
      simp only [Sessions.step] at hstep
      split at hstep
      all_goals
        cases hstep
        exact h
  | change username password passwordHash =>
      simp only [Sessions.step] at hstep
      split at hstep
      · cases hstep
        exact (h.revoke username).withUsers _
      · cases hstep
        exact h
  | delete username =>
      simp only [Sessions.step] at hstep
      split at hstep
      · cases hstep
        exact (h.revoke username).withUsers _
      · cases hstep
        exact h
  | login username valid =>
      simp only [Sessions.step] at hstep
      split at hstep
      all_goals
        cases hstep
        exact h
  | sign i =>
      obtain ⟨user, huser, hstep⟩ := Option.bind_eq_some_iff.mp hstep
      cases hstep
      refine ⟨?_, h.2⟩
      intro token htoken
      rcases List.mem_append.mp htoken with htoken | htoken
      · exact h.1 token htoken
      · obtain rfl : token = loginToken user := List.mem_singleton.mp htoken
        rfl

/-- The rows of a name: there is one, it is enabled and has version `v`. -/
def Sessions.At (s : Sessions) (name : Username) (v : Nat) : Prop :=
  (∃ u ∈ s.users, u.username = name) ∧
    ∀ u ∈ s.users, u.username = name → u.enabled = true ∧ u.authVersion = v

theorem active_of_at {token : StorageJWTPayload} (h : s.At name v) (hkind : token.kind = .operator)
    (hfor : StorageJWTPayload.isFor name token = true) (hversion : token.authVersion = some v)
    (hsafe : isSafeInteger v = true) : isDashboardSessionActive s.users token = true := by
  obtain ⟨⟨u, hu, huname⟩, hrows⟩ := h
  have hsome : (s.users.find? fun u => u.username = name).isSome = true :=
    List.find?_isSome.mpr ⟨u, hu, decide_eq_true huname⟩
  obtain ⟨w, hw⟩ := Option.isSome_iff_exists.mp hsome
  obtain ⟨henabled, hwversion⟩ := hrows w (List.mem_of_find?_eq_some hw)
    (by simpa using List.find?_some hw)
  have hread : getDashboardUser s.users token.sub = some w := by
    rw [getDashboardUser, of_decide_eq_true hfor]
    exact hw
  unfold isDashboardSessionActive
  rw [hkind, hversion, hread]
  simp [hsafe, henabled, hwversion, toNumber_of_lt (of_decide_eq_true hsafe)]

def passwd (username : String) : SessionAction := .change username "correct horse battery" ""

theorem step_passwd (hname : normalizeUsername username = some name) (h : s.At name v)
    (hv : v + 1 < 2 ^ 63) :
    ∃ t, s.step (passwd username) = some t ∧ t.At name (v + 1) ∧
      t.revoked = (s.revoke username).revoked ∧ t.issued = (s.revoke username).issued := by
  obtain ⟨⟨u, hu, huname⟩, hrows⟩ := h
  have hfits : (s.users.any fun u => u.username = name && 2 ^ 63 ≤ u.authVersion + 1) = false := by
    rw [List.any_eq_false]
    intro w hw hbad
    simp only [Bool.and_eq_true, decide_eq_true_eq] at hbad
    rw [(hrows w hw hbad.1).2] at hbad
    omega
  have hfound : ((updateWhere (fun u => u.username = name) (DashboardUser.withPassword "")
      s.users).find? fun u => u.username = name).isSome = true := by
    rw [List.find?_isSome]
    refine ⟨u.withPassword "", mem_updateWhere.mpr ⟨u, hu, ?_⟩, decide_eq_true huname⟩
    rw [if_pos (decide_eq_true huname)]
  obtain ⟨w, hw⟩ := Option.isSome_iff_exists.mp hfound
  have hchange : changeDashboardUserPassword username "correct horse battery" "" s.users =
      .ok (updateWhere (fun u => u.username = name) (DashboardUser.withPassword "") s.users,
        some w) := by
    have hvalid : validatePassword "correct horse battery" = .ok () := by decide +kernel
    simp only [changeDashboardUserPassword, hname, hvalid, hfits, hw, Bool.false_eq_true, if_false]
    rfl
  have hstep : s.step (passwd username) = some { s.revoke username with
      users := updateWhere (fun u => u.username = name) (DashboardUser.withPassword "") s.users } := by
    unfold passwd Sessions.step
    dsimp only
    rw [hchange]
  refine ⟨_, hstep, ?_⟩
  -- what the tokens are revoked to does not matter here
  generalize s.revoke username = revoked
  refine ⟨⟨⟨u.withPassword "", mem_updateWhere.mpr ⟨u, hu, ?_⟩, huname⟩, ?_⟩, rfl, rfl⟩
  · rw [if_pos (decide_eq_true huname)]
  · intro r hr hrname
    obtain ⟨r₀, hr₀, rfl⟩ := mem_updateWhere.mp hr
    by_cases hr₀name : r₀.username = name
    · rw [if_pos (decide_eq_true hr₀name)]
      obtain ⟨henabled, hversion⟩ := hrows r₀ hr₀ hr₀name
      exact ⟨henabled, congrArg (· + 1) hversion⟩
    · rw [if_neg (by simpa using hr₀name)] at hrname
      exact absurd hrname hr₀name

/-- Password changes bring the row to every later version, and revoke what is signed. -/
theorem exec_passwd (hname : normalizeUsername username = some name) (k : Nat) :
    ∀ {s : Sessions} {v : Nat}, s.At name v → v + k < 2 ^ 63 →
      ∃ t, exec Sessions.step s (List.replicate k (passwd username)) = some t ∧
        t.At name (v + k) ∧ s.revoked ⊆ t.revoked ∧
        (0 < k → ∀ token ∈ s.issued, StorageJWTPayload.isFor name token = true →
          token ∈ t.revoked) := by
  induction k with
  | zero =>
      intro s v h _
      exact ⟨s, rfl, h, List.Subset.refl _, by intro hk; cases hk⟩
  | succ k ih =>
      intro s v h hv
      obtain ⟨m, hm, hat, hrevoked, hissued⟩ := step_passwd hname h (by omega)
      obtain ⟨t, ht, hat', hsub, -⟩ := ih hat (by omega)
      have hfirst : (s.revoke username).revoked =
          s.revoked ++ s.issued.filter (StorageJWTPayload.isFor name) := by
        unfold Sessions.revoke
        rw [hname]
      refine ⟨t, exec_cons_eq_some.mpr ⟨m, hm, ht⟩, ?_, ?_, ?_⟩
      · rwa [Nat.add_right_comm] at hat'
      · intro token htoken
        apply hsub
        rw [hrevoked, hfirst]
        exact List.mem_append_left _ htoken
      · intro _ token htoken hfor
        apply hsub
        rw [hrevoked, hfirst]
        exact List.mem_append_right _ (List.mem_filter.mpr ⟨htoken, hfor⟩)

theorem not_stale {token : StorageJWTPayload} (h : ¬ Stale v token) :
    ∃ n, token.authVersion = some n ∧ isSafeInteger n = true ∧ v ≤ n := by
  simp only [Stale, Classical.not_forall] at h
  obtain ⟨n, hversion, hsafe, hn⟩ := h
  exact ⟨n, hversion, hsafe, Nat.le_of_not_lt hn⟩

/-- A name whose row starts at version 1 although one of its earlier tokens carries a version
from there on: password changes alone bring that token back. -/
theorem revived_of_not_upTo (hname : normalizeUsername username = some name)
    (hat : s.At name 1) (hkinds : s.OperatorTokens) (h : ¬ s.UpTo name 1) :
    ∃ later t, exec Sessions.step s later = some t ∧ ¬ t.RevokedRejected := by
  -- once the token is revoked, the row only has to come up to its version
  have hrevive : ∀ {s : Sessions} {token : StorageJWTPayload} {n : Nat}, s.At name 1 →
      token.kind = .operator → StorageJWTPayload.isFor name token = true →
      token.authVersion = some n → isSafeInteger n = true →
      (1 ≤ n ∧ token ∈ s.revoked ∨ 2 ≤ n ∧ token ∈ s.issued) →
      ∃ later t, exec Sessions.step s later = some t ∧ ¬ t.RevokedRejected := by
    intro s token n hat hkind hfor hversion hsafe hmem
    have hn : n < 2 ^ 53 := of_decide_eq_true hsafe
    have hpos : 1 ≤ n := by omega
    obtain ⟨t, ht, hat', hrevoked, hissued⟩ :=
      exec_passwd hname (n - 1) hat (by omega)
    rw [Nat.add_sub_cancel' hpos] at hat'
    have htoken : token ∈ t.revoked := by
      rcases hmem with ⟨-, hmem⟩ | ⟨htwo, hmem⟩
      · exact hrevoked hmem
      · exact hissued (by omega) token hmem hfor
    refine ⟨_, t, ht, ?_⟩
    intro hrejected
    have hactive := active_of_at hat' hkind hfor hversion hsafe
    rw [hrejected token htoken] at hactive
    cases hactive
  simp only [Sessions.UpTo, not_and_or, not_forall] at h
  rcases h with ⟨token, htoken, hfor, hstale⟩ | ⟨token, htoken, hfor, hstale⟩ |
    ⟨user, huser, huname, hstale⟩
  · obtain ⟨n, hversion, hsafe, hn⟩ := not_stale hstale
    exact hrevive hat (hkinds.2 token htoken) hfor hversion hsafe (.inl ⟨hn, htoken⟩)
  · obtain ⟨n, hversion, hsafe, hn⟩ := not_stale hstale
    exact hrevive hat (hkinds.1 token htoken) hfor hversion hsafe (.inr ⟨hn, htoken⟩)
  · obtain ⟨n, hversion, hsafe, hn⟩ := not_stale hstale
    obtain ⟨i, hi⟩ := List.getElem?_of_mem huser
    have hsign : s.step (.sign i) = some { s with
        logins := s.logins.eraseIdx i, issued := s.issued ++ [loginToken user] } :=
      Option.bind_eq_some_iff.mpr ⟨user, hi, rfl⟩
    obtain ⟨later, t, ht, hbad⟩ := hrevive
      (s := { s with logins := s.logins.eraseIdx i, issued := s.issued ++ [loginToken user] })
      hat rfl (isFor_loginToken.mpr huname) hversion hsafe
      (.inr ⟨hn, List.mem_append_right _ (List.mem_singleton_self _)⟩)
    exact ⟨.sign i :: later, t, exec_cons_eq_some.mpr ⟨_, hsign, ht⟩, hbad⟩

theorem revived_of_not_fresh {a : SessionAction} (hkinds : s.OperatorTokens)
    (hstep : s.step a = some t) (h : ¬ FreshNames s a t) :
    ∃ later u, exec Sessions.step t later = some u ∧ ¬ u.RevokedRejected := by
  cases a with
  | create username password passwordHash =>
      simp only [FreshNames, not_forall] at h
      obtain ⟨hok, name, hname, hupTo⟩ := h
      simp only [Sessions.step] at hstep
      split at hstep
      · rename_i users user hcreate
        cases hstep
        obtain ⟨name', hname', hfree, rfl, huser, henabled, hversion⟩ :=
          createDashboardUser_eq_ok hcreate
        obtain rfl : name' = name := Option.some.inj (hname'.symm.trans hname)
        refine revived_of_not_upTo (s := { s with users := s.users ++ [user] }) hname' ?_ hkinds
          (withUsers_upTo.not.mpr hupTo)
        refine ⟨⟨user, List.mem_append_right _ (List.mem_singleton_self _), huser⟩, ?_⟩
        intro u hu huname
        rcases List.mem_append.mp hu with hu | hu
        · exact absurd huname (hfree u hu)
        · obtain rfl : u = user := List.mem_singleton.mp hu
          exact ⟨henabled, hversion⟩
      · rename_i hcreate
        rw [hcreate] at hok
        cases hok
  | change username password passwordHash => exact absurd trivial h
  | delete username => exact absurd trivial h
  | login username valid => exact absurd trivial h
  | sign i => exact absurd trivial h

/-! ## The law -/

/-- In a run that creates no username below the versions of its earlier tokens, revoked
tokens stay revoked; and wherever a run does create one, it has a continuation that brings a
revoked token back. -/
theorem revoked_sessions_stay_revoked (start : Sessions) (actions : List SessionAction)
    (hstart : start.Initial) (hrun : exec Sessions.step start actions = some s) :
    (EveryStep Sessions.step FreshNames start actions → s.RevokedRejected) ∧
      ∀ a t, s.step a = some t → ¬ FreshNames s a t →
        ∃ later u, exec Sessions.step t later = some u ∧ ¬ u.RevokedRejected := by
  constructor
  · intro hfresh
    have hinv : SessionInv s :=
      exec_invariant (fun _ _ _ h hfresh hstep => h.step hfresh hstep) hstart.inv hfresh hrun
    exact hinv.rejected
  · intro a t hstep hnot
    have hkinds : s.OperatorTokens := by
      refine exec_invariant (I := Sessions.OperatorTokens) (C := fun _ _ _ => True)
        (fun _ _ _ h _ hstep => h.step hstep) ?_ (everyStep_of_forall_mem fun _ _ => trivial) hrun
      obtain ⟨-, -, hissued, hrevoked⟩ := hstart
      constructor
      · rw [hissued]
        intro token htoken
        cases htoken
      · rw [hrevoked]
        intro token htoken
        cases htoken
    exact revived_of_not_fresh hkinds hstep hnot

def rootUser : DashboardUser :=
  ⟨⟨"root", by decide +kernel⟩, "scrypt$root", .storageAdmin, rfl, true, 1, Nat.one_pos⟩

/-- The administrator replaces an account after its password was changed. -/
def replacement : List SessionAction :=
  [.create "alice" "correct horse battery" "scrypt$a", .change "alice" "staple horse battery" "scrypt$b",
    .delete "alice", .create "alice" "battery horse staple" "scrypt$c", .login " Alice " true,
    .sign 0, .change "alice" "horse battery staple" "scrypt$d"]

theorem revoked_sessions_stay_revoked_replaced :
    ∃ s, exec Sessions.step { users := [rootUser] } replacement = some s ∧
      s.revoked.length = 1 ∧ s.RevokedRejected := by
  refine ⟨_, rfl, by decide +kernel, ?_⟩
  exact (revoked_sessions_stay_revoked { users := [rootUser] } replacement (by decide +kernel)
    rfl).1 (by decide +kernel)

/-- A token from before the deletion is accepted for the account created afterwards. -/
theorem recreated_user_revives_session :
    ∃ s, exec Sessions.step { users := [rootUser] }
        [.create "alice" "correct horse battery" "scrypt$a", .login "alice" true, .sign 0,
          .delete "alice", .create "alice" "battery horse staple" "scrypt$b"] = some s ∧
      Sessions.Initial { users := [rootUser] } ∧
      ∃ t ∈ s.revoked, isDashboardSessionActive s.users t = true := by
  refine ⟨_, rfl, by decide +kernel, ?_⟩
  decide +kernel

end ExternalStorage.Dashboard
