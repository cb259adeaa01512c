import ExternalStorage.Dashboard.Sessions

/-!
# What a removed administrator leaves

An administrator can have service tokens issued, and these outlive the account.  Requests, logins
and changes of the accounts in any order: once an account is gone and not created again, nothing
that goes back to it is worth more than a service token of at most thirty days.
-/

namespace ExternalStorage.Dashboard

open ExternalStorage.Model Library.Runs Library.Table

/-! ## Tokens -/

/-- What `env.ts` configures; the secrets and the audiences may be equal. -/
structure AuthEnv where
  dashboardJwtSecret : String
  dashboardJwtAudience : String
  clueojServiceSecret : String
  clueojServiceAudience : String

/-- A JWT with the secret that signed it, in seconds.  `account` is the account whose login it goes
back to: history that no token keeps. -/
structure SignedToken where
  secret : String
  issuer : String
  audience : String
  expires : Int
  payload : StorageJWTPayload
  account : Option Username
  deriving DecidableEq

def issuer : String := "clueoj-storage"

/-- `jwtVerify`, and the check of the kind. -/
def verifyToken (now : Int) (t : SignedToken) (secret audience : String) (kind : TokenKind) :
    Option StorageJWTPayload :=
  if t.secret = secret ∧ t.issuer = issuer ∧ t.audience = audience ∧ now < t.expires ∧
      t.payload.kind = kind then
    some t.payload
  else
    none

def hasScope (payload : StorageJWTPayload) (scope : String) : Bool :=
  scope ∈ payload.scopes || "admin" ∈ payload.scopes

/-! ## Requests -/

def publicPaths : List String :=
  ["/api/v1/system/health", "/api/v1/auth/login", "/api/v1/openapi.json", "/api/v1/openapi.yaml"]

/-- What the `onRequest` hook leaves for the handler. -/
inductive Auth where
  /-- No `auth`: the path as sent is not one of the API, or is public. -/
  | absent
  | rejected (code : String)
  | present (payload : StorageJWTPayload)
  deriving DecidableEq

/-- An operator token needs a session; then the token is tried as that of a service. -/
def authenticate (env : AuthEnv) (users : List DashboardUser) (now : Int) (path : String)
    (bearer : Option SignedToken) : Auth :=
  if !path.startsWith "/api/v1/" || path ∈ publicPaths then .absent
  else
    match bearer with
    | none => .rejected "unauthorized"
    | some t =>
        match (verifyToken now t env.dashboardJwtSecret env.dashboardJwtAudience .operator).filter
            (isDashboardSessionActive users) with
        | some payload => .present payload
        | none =>
            match verifyToken now t env.clueojServiceSecret env.clueojServiceAudience .service with
            | some payload => .present payload
            | none => .rejected "invalid_token"

/-- `requireScopes`; without `auth` it throws. -/
def requireScopes (auth : Auth) (scopes : List String) : Bool :=
  match auth with
  | .present payload => scopes.any (hasScope payload)
  | .absent | .rejected _ => false

/-! ## The service token route -/

structure ServiceTokenRequest where
  subject : Option String
  scopes : Option (List String)
  ttlSeconds : Option Int

def allowedServiceScopes : List String := ["read", "mutate", "downloads:issue"]

def ServiceTokenRequest.canonicalScopes (body : ServiceTokenRequest) : List String :=
  match body.scopes with
  | some (scope :: scopes) => scope :: scopes
  | _ => allowedServiceScopes

def ServiceTokenRequest.ttl (body : ServiceTokenRequest) : Int :=
  min (max (body.ttlSeconds.getD 86400) 60) 2592000

def signServiceToken (env : AuthEnv) (now : Int) (sub : String) (scopes : List String) (ttl : Int)
    (account : Option Username) : SignedToken :=
  ⟨env.clueojServiceSecret, issuer, env.clueojServiceAudience, now + ttl,
    ⟨sub, .storageAdmin, scopes, .service, none⟩, account⟩

structure LetThrough where
  payload : StorageJWTPayload
  account : Option Username
  deriving DecidableEq

/-- `POST /api/v1/auth/service-token`, after the hook; `idempotencyKey` is the header. -/
def issueServiceToken (env : AuthEnv) (now : Int) (req : LetThrough)
    (idempotencyKey : Option String) (body : ServiceTokenRequest) : Option SignedToken :=
  if !requireScopes (.present req.payload) ["admin"] then none
  else if idempotencyKey.all fun key => key = "" then none
  else if body.canonicalScopes.any fun scope => scope ∉ allowedServiceScopes then none
  else
    some (signServiceToken env now (body.subject.getD "clueoj-service") body.canonicalScopes
      body.ttl req.account)

/-! ## The machine -/

structure Authority where
  now : Int
  users : List DashboardUser
  /-- The logins that have read their user and not signed the token. -/
  logins : List DashboardUser := []
  /-- The service token requests between the hook and the handler. -/
  requests : List LetThrough := []
  /-- The tokens that the secrets of the server have signed. -/
  tokens : List SignedToken := []
  deriving DecidableEq

inductive AuthorityAction where
  | tick (seconds : Nat)
  | create (username password passwordHash : String)
  | change (username password passwordHash : String)
  | delete (username : String)
  | login (username : String) (valid : Bool)
  | sign (i : Nat)
  /-- The site signs a token with the secret that it shares. -/
  | siteToken (t : SignedToken)
  /-- A service token request; the path as sent, as the router may read it in another way. -/
  | request (path : String) (bearer : Option SignedToken)
  | answer (i : Nat) (idempotencyKey : Option String) (body : ServiceTokenRequest)

/-- A bearer is a token that has been signed, or one of another secret. -/
def Authority.presentable (env : AuthEnv) (w : Authority) (t : SignedToken) : Bool :=
  t ∈ w.tokens || (t.secret ≠ env.dashboardJwtSecret && t.secret ≠ env.clueojServiceSecret)

def Authority.step (env : AuthEnv) (w : Authority) : AuthorityAction → Option Authority
  | .tick seconds => some { w with now := w.now + seconds }
  | .create username password passwordHash =>
      match createDashboardUser username password passwordHash w.users with
      | .ok (users, _) => some { w with users := users }
      | .error _ => some w
  | .change username password passwordHash =>
      match changeDashboardUserPassword username password passwordHash w.users with
      | .ok (users, _) => some { w with users := users }
      | .error _ => some w
  | .delete username =>
      match deleteDashboardUser username w.users with
      | .ok (users, _) => some { w with users := users }
      | .error _ => some w
  | .login username valid =>
      match verifyDashboardCredentials w.users username valid with
      | some user => some { w with logins := w.logins ++ [user] }
      | none => some w
  | .sign i => do
      let user ← w.logins[i]?
      some { w with
        logins := w.logins.eraseIdx i
        tokens := w.tokens ++ [⟨env.dashboardJwtSecret, issuer, env.dashboardJwtAudience,
          w.now + 3600, loginToken user, some user.username⟩] }
  | .siteToken t => some { w with tokens := w.tokens ++ [{ t with account := none }] }
  | .request path bearer =>
      if bearer.all (w.presentable env) then
        match authenticate env w.users w.now path bearer with
        | .present payload =>
            some { w with
              requests := w.requests ++ [⟨payload, bearer.bind SignedToken.account⟩] }
        -- Without `auth` the handler throws.
        | .absent | .rejected _ => some w
      else
        none
  | .answer i idempotencyKey body => do
      let req ← w.requests[i]?
      some { w with
        requests := w.requests.eraseIdx i
        tokens := w.tokens ++ (issueServiceToken env w.now req idempotencyKey body).toList }

/-- The username is not created again. -/
def NotCreated (name : Username) (w : Authority) (a : AuthorityAction) (_ : Authority) : Prop :=
  match a with
  | .create username password passwordHash =>
      (createDashboardUser username password passwordHash w.users).isOk = true →
        normalizeUsername username ≠ some name
  | _ => True

/-! ## What goes back to an account -/

def serviceTokenLimit : Int := 2592000

/-- A token that goes back to the account is one of its logins, or a service token that a request of
the account was answered with at `latest` or before. -/
def GoesBack (latest : Int) (name : Username) (t : SignedToken) : Prop :=
  t.account = some name →
    (t.payload.kind = .operator ∧ normalizeUsername t.payload.sub = some name) ∨
      (t.payload.kind = .service ∧ (∀ scope ∈ t.payload.scopes, scope ∈ allowedServiceScopes) ∧
        t.expires ≤ latest + serviceTokenLimit)

section Request

variable {env : AuthEnv} {users : List DashboardUser} {now latest : Int} {path : String}
  {bearer : Option SignedToken} {t : SignedToken} {payload : StorageJWTPayload} {name : Username}

theorem verifyToken_eq_some {secret audience : String} {kind : TokenKind}
    (h : verifyToken now t secret audience kind = some payload) :
    t.secret = secret ∧ now < t.expires ∧ t.payload.kind = kind ∧ payload = t.payload := by
  unfold verifyToken at h
  split at h
  · rename_i hvalid
    cases h
    exact ⟨hvalid.1, hvalid.2.2.2.1, hvalid.2.2.2.2, rfl⟩
  · cases h

theorem authenticate_cases (h : authenticate env users now path bearer = .present payload) :
    ∃ t, bearer = some t ∧ payload = t.payload ∧ now < t.expires ∧
      (t.secret = env.dashboardJwtSecret ∧ t.payload.kind = .operator ∧
          isDashboardSessionActive users t.payload = true ∨
        t.secret = env.clueojServiceSecret ∧ t.payload.kind = .service) := by
  unfold authenticate at h
  split at h
  · cases h
  · split at h
    · cases h
    · rename_i t
      split at h
      · rename_i operator hoperator
        cases h
        obtain ⟨hverify, hactive⟩ := Option.filter_eq_some_iff.mp hoperator
        obtain ⟨hsecret, hexpires, hkind, rfl⟩ := verifyToken_eq_some hverify
        exact ⟨t, rfl, rfl, hexpires, .inl ⟨hsecret, hkind, hactive⟩⟩
      · split at h
        · rename_i service hservice
          cases h
          obtain ⟨hsecret, hexpires, hkind, rfl⟩ := verifyToken_eq_some hservice
          exact ⟨t, rfl, rfl, hexpires, .inr ⟨hsecret, hkind⟩⟩
        · cases h

theorem inactive_of_removed (hremoved : ∀ user ∈ users, user.username ≠ name)
    (hsub : normalizeUsername payload.sub = some name) :
    isDashboardSessionActive users payload = false := by
  have hnone : getDashboardUser users payload.sub = none := by
    rw [getDashboardUser, hsub]
    exact List.find?_eq_none.mpr fun user huser => by simpa using hremoved user huser
  unfold isDashboardSessionActive
  rw [hnone]
  split <;> rfl

theorem service_of_removed (hremoved : ∀ user ∈ users, user.username ≠ name)
    (hback : GoesBack latest name t) (haccount : t.account = some name)
    (h : authenticate env users now path (some t) = .present payload) :
    payload.kind = .service ∧ (∀ scope ∈ payload.scopes, scope ∈ allowedServiceScopes) ∧
      now < latest + serviceTokenLimit := by
  obtain ⟨t', ht', rfl, hexpires, hkind⟩ := authenticate_cases h
  cases ht'
  rcases hback haccount with ⟨hoperator, hsub⟩ | ⟨hservice, hscopes, hlimit⟩
  · rcases hkind with ⟨-, -, hactive⟩ | ⟨-, hservice⟩
    · rw [inactive_of_removed hremoved hsub] at hactive
      cases hactive
    · rw [hoperator] at hservice
      cases hservice
  · exact ⟨hservice, hscopes, hexpires.trans_le hlimit⟩

/-- No token of a service lets its bearer have another one issued. -/
theorem not_admin (hscopes : ∀ scope ∈ payload.scopes, scope ∈ allowedServiceScopes) :
    requireScopes (.present payload) ["admin"] = false := by
  have hadmin : "admin" ∉ payload.scopes := fun h => absurd (hscopes _ h) (by decide)
  simp [requireScopes, hasScope, hadmin]

theorem GoesBack.mono {later : Int} (h : GoesBack latest name t) (hlater : latest ≤ later) :
    GoesBack later name t := by
  intro haccount
  rcases h haccount with hoperator | ⟨hservice, hscopes, hlimit⟩
  · exact .inl hoperator
  · exact .inr ⟨hservice, hscopes, by omega⟩

theorem goesBack_of_none (h : t.account = none) : GoesBack latest name t := by
  intro haccount
  rw [h] at haccount
  cases haccount

theorem ServiceTokenRequest.ttl_le (body : ServiceTokenRequest) :
    body.ttl ≤ serviceTokenLimit :=
  min_le_right _ _

theorem issueServiceToken_eq_some {req : LetThrough} {idempotencyKey : Option String}
    {body : ServiceTokenRequest} (h : issueServiceToken env now req idempotencyKey body = some t) :
    requireScopes (.present req.payload) ["admin"] = true ∧ t.account = req.account ∧
      t.payload.kind = .service ∧ (∀ scope ∈ t.payload.scopes, scope ∈ allowedServiceScopes) ∧
      t.expires ≤ now + serviceTokenLimit := by
  unfold issueServiceToken at h
  split at h
  · cases h
  · rename_i hadmin
    split at h
    · cases h
    · split at h
      · cases h
      · rename_i hscopes
        cases h
        refine ⟨by simpa using hadmin, rfl, rfl, ?_, Int.add_le_add_left body.ttl_le now⟩
        intro scope hscope
        by_contra hunknown
        exact hscopes (List.any_eq_true.mpr ⟨scope, hscope, by simpa using hunknown⟩)

end Request

theorem deleteDashboardUser_sublist {username : String} {users users' : List DashboardUser}
    {deleted : Bool} (h : deleteDashboardUser username users = .ok (users', deleted)) :
    users'.Sublist users := by
  unfold deleteDashboardUser at h
  split at h
  · cases h
    exact List.Sublist.refl users
  · split at h
    · cases h
      exact List.Sublist.refl users
    · split at h
      · cases h
      · cases h
        exact List.filter_sublist

inductive AuthorityStep (env : AuthEnv) (w : Authority) : AuthorityAction → Authority → Prop
  | refused {a} : AuthorityStep env w a w
  | ticked {seconds} : AuthorityStep env w (.tick seconds) { w with now := w.now + seconds }
  | created {username password passwordHash users user}
      (created : createDashboardUser username password passwordHash w.users = .ok (users, user)) :
      AuthorityStep env w (.create username password passwordHash) { w with users := users }
  | changed {username password passwordHash users found}
      (changed : changeDashboardUserPassword username password passwordHash w.users =
        .ok (users, found)) :
      AuthorityStep env w (.change username password passwordHash) { w with users := users }
  | deleted {username users deleted}
      (deleted : deleteDashboardUser username w.users = .ok (users, deleted)) :
      AuthorityStep env w (.delete username) { w with users := users }
  | loggedIn {username valid user} :
      AuthorityStep env w (.login username valid) { w with logins := w.logins ++ [user] }
  | signed {i user} (waiting : w.logins[i]? = some user) :
      AuthorityStep env w (.sign i)
        { w with
          logins := w.logins.eraseIdx i
          tokens := w.tokens ++ [⟨env.dashboardJwtSecret, issuer, env.dashboardJwtAudience,
            w.now + 3600, loginToken user, some user.username⟩] }
  | site {t} :
      AuthorityStep env w (.siteToken t)
        { w with tokens := w.tokens ++ [{ t with account := none }] }
  | letThrough {path t payload} (presentable : w.presentable env t = true)
      (auth : authenticate env w.users w.now path (some t) = .present payload) :
      AuthorityStep env w (.request path (some t))
        { w with requests := w.requests ++ [⟨payload, t.account⟩] }
  | answered {i idempotencyKey body req} (waiting : w.requests[i]? = some req) :
      AuthorityStep env w (.answer i idempotencyKey body)
        { w with
          requests := w.requests.eraseIdx i
          tokens := w.tokens ++ (issueServiceToken env w.now req idempotencyKey body).toList }

section Machine

variable {env : AuthEnv} {w v u : Authority} {a : AuthorityAction} {name : Username} {latest : Int}
  {t : SignedToken}

theorem Authority.step_cases (h : w.step env a = some v) : AuthorityStep env w a v := by
  cases a with
  | tick seconds => cases h; exact .ticked
  | siteToken t => cases h; exact .site
  | create username password passwordHash =>
      simp only [Authority.step] at h
      split at h
      · cases h; exact .created ‹_›
      · cases h; exact .refused
  | change username password passwordHash =>
      simp only [Authority.step] at h
      split at h
      · cases h; exact .changed ‹_›
      · cases h; exact .refused
  | delete username =>
      simp only [Authority.step] at h
      split at h
      · cases h; exact .deleted ‹_›
      · cases h; exact .refused
  | login username valid =>
      simp only [Authority.step] at h
      split at h
      · cases h; exact .loggedIn
      · cases h; exact .refused
  | sign i =>
      simp only [Authority.step, Option.bind_eq_bind, Option.bind_eq_some_iff] at h
      obtain ⟨user, huser, h⟩ := h
      cases h
      exact .signed huser
  | answer i idempotencyKey body =>
      simp only [Authority.step, Option.bind_eq_bind, Option.bind_eq_some_iff] at h
      obtain ⟨req, hreq, h⟩ := h
      cases h
      exact .answered hreq
  | request path bearer =>
      simp only [Authority.step] at h
      split at h
      · rename_i hpresentable
        split at h
        · rename_i payload hpayload
          obtain ⟨t, rfl, -⟩ := authenticate_cases hpayload
          cases h
          exact .letThrough hpresentable hpayload
        all_goals
          cases h
          exact .refused
      · cases h

theorem Authority.step_tokens (h : w.step env a = some v) (ht : t ∈ v.tokens) :
    t ∈ w.tokens ∨ t.account = none ∨
      (∃ user ∈ w.logins, t.payload = loginToken user ∧ t.account = some user.username) ∨
      ∃ req ∈ w.requests, requireScopes (.present req.payload) ["admin"] = true ∧
        t.account = req.account ∧ t.payload.kind = .service ∧
        (∀ scope ∈ t.payload.scopes, scope ∈ allowedServiceScopes) ∧
        t.expires ≤ w.now + serviceTokenLimit := by
  cases step_cases h with
  | @signed i user waiting =>
      rcases List.mem_append.mp ht with hold | hnew
      · exact .inl hold
      · rw [List.mem_singleton.mp hnew]
        exact .inr (.inr (.inl ⟨user, List.mem_of_getElem? waiting, rfl, rfl⟩))
  | site =>
      rcases List.mem_append.mp ht with hold | hnew
      · exact .inl hold
      · rw [List.mem_singleton.mp hnew]
        exact .inr (.inl rfl)
  | @answered i idempotencyKey body req waiting =>
      rcases List.mem_append.mp ht with hold | hnew
      · exact .inl hold
      · have hissued := issueServiceToken_eq_some (Option.mem_toList.mp hnew)
        exact .inr (.inr (.inr ⟨req, List.mem_of_getElem? waiting, hissued⟩))
  | _ => exact .inl ht

theorem Authority.step_now (h : w.step env a = some v) : w.now ≤ v.now := by
  cases step_cases h with
  | @ticked seconds => exact Int.le_add_of_nonneg_right (Int.natCast_nonneg seconds)
  | _ => exact le_rfl

theorem goesBack_loginToken {user : DashboardUser} (hpayload : t.payload = loginToken user)
    (haccount : t.account = some user.username) : GoesBack latest name t := by
  intro hname
  obtain rfl : user.username = name := Option.some.inj (haccount.symm.trans hname)
  rw [hpayload]
  exact .inl ⟨rfl, normalizeUsername_val user.username⟩

theorem Authority.step_goesBack (hback : ∀ t ∈ w.tokens, GoesBack w.now name t)
    (h : w.step env a = some v) : ∀ t ∈ v.tokens, GoesBack v.now name t := by
  intro t ht
  rcases step_tokens h ht with hold | hsite | ⟨user, -, hpayload, haccount⟩ | ⟨req, -, hreq⟩
  · exact (hback t hold).mono (step_now h)
  · exact goesBack_of_none hsite
  · exact goesBack_loginToken hpayload haccount
  · obtain ⟨-, -, hkind, hscopes, hexpires⟩ := hreq
    exact fun _ => .inr ⟨hkind, hscopes, hexpires.trans (by have := step_now h; omega)⟩

/-! ## After the removal -/

structure Authority.Removed (latest : Int) (name : Username) (w : Authority) : Prop where
  users : ∀ user ∈ w.users, user.username ≠ name
  tokens : ∀ t ∈ w.tokens, GoesBack latest name t
  requests : ∀ req ∈ w.requests, req.account = some name →
    requireScopes (.present req.payload) ["admin"] = false

theorem Authority.step_users (hgone : ∀ user ∈ w.users, user.username ≠ name)
    (hcreate : NotCreated name w a v) (h : w.step env a = some v) :
    ∀ user ∈ v.users, user.username ≠ name := by
  cases step_cases h with
  | created hcreated =>
      have hne := hcreate (by rw [hcreated]; rfl)
      obtain ⟨other, hother, -, rfl, hname, -, -⟩ := createDashboardUser_eq_ok hcreated
      intro user huser
      rcases List.mem_append.mp huser with hold | hnew
      · exact hgone user hold
      · rw [List.mem_singleton.mp hnew, hname]
        rintro rfl
        exact hne hother
  | changed hchanged =>
      rcases changeDashboardUserPassword_cases hchanged with ⟨rfl, -⟩ | ⟨other, -, rfl⟩
      · exact hgone
      · intro user huser
        obtain ⟨old, hold, rfl⟩ := List.mem_map.mp huser
        have hne := hgone old hold
        split <;> exact hne
  | deleted hdeleted =>
      intro user huser
      exact hgone user ((deleteDashboardUser_sublist hdeleted).subset huser)
  | _ => exact hgone

theorem Authority.step_requests {req : LetThrough} (h : w.step env a = some v)
    (hreq : req ∈ v.requests) :
    req ∈ w.requests ∨ ∃ path bearer, w.presentable env bearer = true ∧
      authenticate env w.users w.now path (some bearer) = .present req.payload ∧
      req.account = bearer.account := by
  cases step_cases h with
  | letThrough hpresentable hauth =>
      rcases List.mem_append.mp hreq with hold | hnew
      · exact .inl hold
      · rw [List.mem_singleton.mp hnew]
        exact .inr ⟨_, _, hpresentable, hauth, rfl⟩
  | answered waiting => exact .inl (List.mem_of_mem_eraseIdx hreq)
  | _ => exact .inl hreq

theorem Authority.Removed.limited {path : String} {payload : StorageJWTPayload}
    (h : w.Removed latest name) (hpresentable : w.presentable env t = true)
    (haccount : t.account = some name)
    (hauth : authenticate env w.users w.now path (some t) = .present payload) :
    payload.kind = .service ∧ (∀ scope ∈ payload.scopes, scope ∈ allowedServiceScopes) ∧
      w.now < latest + serviceTokenLimit := by
  rcases Bool.or_eq_true _ _ |>.mp hpresentable with hsigned | hforeign
  · exact service_of_removed h.users (h.tokens t (of_decide_eq_true hsigned)) haccount hauth
  · obtain ⟨t', ht', -, -, hkind⟩ := authenticate_cases hauth
    cases ht'
    simp only [Bool.and_eq_true, decide_eq_true_eq] at hforeign
    rcases hkind with ⟨hsecret, -⟩ | ⟨hsecret, -⟩
    · exact absurd hsecret hforeign.1
    · exact absurd hsecret hforeign.2

theorem Authority.Removed.step (h : w.Removed latest name) (hcreate : NotCreated name w a v)
    (hstep : w.step env a = some v) : v.Removed latest name := by
  constructor
  · exact step_users h.users hcreate hstep
  · intro t ht
    rcases step_tokens hstep ht with hold | hsite | ⟨user, -, hpayload, haccount⟩ | hissued
    · exact h.tokens t hold
    · exact goesBack_of_none hsite
    · exact goesBack_loginToken hpayload haccount
    · obtain ⟨req, hreq, hadmin, haccount, -⟩ := hissued
      intro hname
      rw [h.requests req hreq (haccount.symm.trans hname)] at hadmin
      cases hadmin
  · intro req hreq hname
    rcases step_requests hstep hreq with hold | ⟨path, bearer, hpresentable, hauth, haccount⟩
    · exact h.requests req hold hname
    · exact not_admin (h.limited hpresentable (haccount.symm.trans hname) hauth).2.1

/-- Once an administrator is gone, with no request of theirs left in the handler, no token of
theirs gives more than the scopes of a service, has another issued, or lasts past thirty days. -/
theorem removed_administrator_expires {start : Authority} {before after : List AuthorityAction}
    (hstart : start.tokens = []) (hbefore : exec (Authority.step env) start before = some w)
    (hgone : ∀ user ∈ w.users, user.username ≠ name)
    (hrequests : ∀ req ∈ w.requests, req.account ≠ some name)
    (hcreate : EveryStep (Authority.step env) (NotCreated name) w after)
    (hafter : exec (Authority.step env) w after = some u) :
    ∀ t ∈ u.tokens, t.account = some name → ∀ path payload,
      authenticate env u.users u.now path (some t) = .present payload →
        u.now < w.now + serviceTokenLimit ∧ payload.kind = .service ∧
          (∀ scope ∈ payload.scopes, scope ∈ allowedServiceScopes) ∧
          requireScopes (.present payload) ["admin"] = false := by
  have hback : ∀ t ∈ w.tokens, GoesBack w.now name t := by
    refine exec_invariant (I := fun w => ∀ t ∈ w.tokens, GoesBack w.now name t)
      (C := fun _ _ _ => True) (fun _ _ _ h _ hstep => Authority.step_goesBack h hstep) ?_
      (everyStep_of_forall_mem fun _ _ => trivial) hbefore
    rw [hstart]
    intro t ht
    cases ht
  have hremoved : w.Removed w.now name := by
    constructor
    · exact hgone
    · exact hback
    · exact fun req hreq hname => absurd hname (hrequests req hreq)
  have hinv : u.Removed w.now name :=
    exec_invariant (fun _ _ _ h hnot hstep => h.step hnot hstep) hremoved hcreate hafter
  intro t ht haccount path payload hauth
  have hpresentable : u.presentable env t = true := by simp [Authority.presentable, ht]
  obtain ⟨hkind, hscopes, hlimit⟩ := hinv.limited hpresentable haccount hauth
  exact ⟨hlimit, hkind, hscopes, not_admin hscopes⟩

end Machine

def separateSecrets : AuthEnv :=
  ⟨"dashboard secret", "clueoj-storage-dashboard", "service secret", "clueoj-storage"⟩

def departing : Username := ⟨"alice", by decide +kernel⟩

def parting : SignedToken :=
  ⟨"dashboard secret", issuer, "clueoj-storage-dashboard", 3600,
    signOperatorToken "alice" .storageAdmin 1, some departing⟩

def bequest : SignedToken :=
  ⟨"service secret", issuer, "clueoj-storage", 2592000,
    ⟨"clueoj-service", .storageAdmin, allowedServiceScopes, .service, none⟩,
    some departing⟩

/-- The administrator has a token issued just before the account is deleted. -/
def departure : List AuthorityAction :=
  [.create "alice" "correct horse battery" "scrypt$a", .login "alice" true, .sign 0,
    .request "/api/v1/auth/service-token" (some parting),
    .answer 0 (some "key") ⟨none, none, some 2592000⟩, .delete "alice"]

def atDeparture : Authority := { now := 0, users := [rootUser], tokens := [parting, bequest] }

def lastSecond : Authority := { atDeparture with now := 2591999 }

/-- It is let through until a second before its thirty days are over. -/
theorem removed_administrator_expires_bequest :
    exec (Authority.step separateSecrets) { now := 0, users := [rootUser] } departure =
        some atDeparture ∧
      exec (Authority.step separateSecrets) atDeparture [.tick 2591999] = some lastSecond ∧
      bequest ∈ lastSecond.tokens ∧ bequest.account = some departing ∧
      authenticate separateSecrets lastSecond.users lastSecond.now "/api/v1/problems"
        (some bequest) = .present bequest.payload ∧
      lastSecond.now + 1 = atDeparture.now + serviceTokenLimit ∧
      requireScopes (.present bequest.payload) ["admin"] = false := by
  have hbefore : exec (Authority.step separateSecrets) { now := 0, users := [rootUser] } departure =
      some atDeparture := by decide +kernel
  have hafter : exec (Authority.step separateSecrets) atDeparture [.tick 2591999] =
      some lastSecond := rfl
  have hbequest : bequest ∈ lastSecond.tokens := by decide
  have hauth : authenticate separateSecrets lastSecond.users lastSecond.now "/api/v1/problems"
      (some bequest) = .present bequest.payload := by decide +kernel
  have hgone : ∀ user ∈ atDeparture.users, user.username ≠ departing := by decide +kernel
  have hcreate : EveryStep (Authority.step separateSecrets) (NotCreated departing) atDeparture
      [.tick 2591999] := fun _ _ => ⟨trivial, trivial⟩
  refine ⟨hbefore, hafter, hbequest, rfl, hauth, rfl, ?_⟩
  exact (removed_administrator_expires rfl hbefore hgone (by decide) hcreate hafter bequest hbequest
    rfl "/api/v1/problems" bequest.payload hauth).2.2.2

end ExternalStorage.Dashboard
