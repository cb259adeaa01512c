import ExternalStorage.Library.Table
import Mathlib.Algebra.Order.Ring.Int
import Mathlib.Data.Nat.Size

/-!
# Dashboard users

The accounts of `dashboard-users.ts`, with the checks of migration 005, and the operator
tokens of `auth.ts`.
-/

namespace ExternalStorage.Model

open Library.Table

/-! ## Usernames -/

/-- What `String.prototype.trim` strips. -/
def jsWhitespace (c : Char) : Bool :=
  ('\t' ≤ c && c ≤ '\r') || c = ' ' || c = '\u00a0' || c = '\u1680' ||
    ('\u2000' ≤ c && c ≤ '\u200a') || c = '\u2028' || c = '\u2029' || c = '\u202f' ||
    c = '\u205f' || c = '\u3000' || c = '\ufeff'

def jsTrim (s : List Char) : List Char :=
  ((s.dropWhile jsWhitespace).reverse.dropWhile jsWhitespace).reverse

/-- `toLowerCase`, as far as the pattern below can tell: outside ASCII the one letter that it
maps into the pattern's alphabet is the Kelvin sign. -/
def jsLower (c : Char) : Char :=
  if c = '\u212a' then 'k' else c.toLower

def usernameFirst (c : Char) : Bool :=
  ('a' ≤ c && c ≤ 'z') || ('0' ≤ c && c ≤ '9')

def usernameRest (c : Char) : Bool :=
  usernameFirst c || c = '.' || c = '_' || c = '-'

/-- `^[a-z0-9][a-z0-9._-]{2,63}$`. -/
def usernameFormat : List Char → Bool
  | [] => false
  | c :: cs => usernameFirst c && cs.all usernameRest && 2 ≤ cs.length && cs.length ≤ 63

/-- A name that `dashboard_users_username_format` lets through. -/
abbrev Username := { name : String // usernameFormat name.toList = true }

def normalizeUsername (value : String) : Option Username :=
  let normalized := String.ofList ((jsTrim value.toList).map jsLower)
  if h : usernameFormat normalized.toList = true then some ⟨normalized, h⟩ else none

/-! ## Accounts -/

inductive Role where
  | viewer
  | operator
  | storageAdmin
  | auditor
  deriving DecidableEq, Repr

structure DashboardUser where
  username : Username
  passwordHash : String
  role : Role
  role_admin : role = .storageAdmin
  enabled : Bool
  authVersion : Nat
  version_positive : 0 < authVersion
  deriving DecidableEq

inductive DashboardError where
  | invalidUsername
  | passwordTooShort
  | passwordTooLong
  | lastAdministrator
  /-- SQLSTATE 23505. -/
  | uniqueViolation
  /-- SQLSTATE 22003, of a `BIGINT` column. -/
  | outOfRange
  deriving DecidableEq, Repr

def DashboardError.message : DashboardError → String
  | .invalidUsername =>
      "Username must be 3-64 characters using letters, numbers, dot, underscore, or dash"
  | .passwordTooShort => "Password must be at least 12 characters"
  | .passwordTooLong => "Password must be at most 1024 characters"
  | .lastAdministrator =>
      "Cannot delete the last enabled dashboard administrator; create another administrator first"
  | .uniqueViolation => "Dashboard user already exists."
  | .outOfRange => "bigint out of range"

/-- The length of a string in JavaScript: its UTF-16 code units. -/
def utf16Length (s : String) : Nat :=
  (s.toList.map fun c => if c.val < 0x10000 then 1 else 2).sum

def validatePassword (password : String) : Except DashboardError Unit :=
  if utf16Length password < 12 then
    .error .passwordTooShort
  else if utf16Length password > 1024 then
    .error .passwordTooLong
  else
    .ok ()

def getDashboardUser (users : List DashboardUser) (username : String) : Option DashboardUser := do
  let normalized ← normalizeUsername username
  users.find? fun u => u.username = normalized

/-- `valid` is the answer of `verifyPassword` on the stored hash. -/
def verifyDashboardCredentials (users : List DashboardUser) (username : String) (valid : Bool) :
    Option DashboardUser := do
  let user ← getDashboardUser users username
  if !user.enabled || !valid then none else some user

/-- `passwordHash` is what `scrypt` makes of the password and a random salt. -/
def createDashboardUser (username password passwordHash : String) (users : List DashboardUser) :
    Except DashboardError (List DashboardUser × DashboardUser) :=
  match normalizeUsername username with
  | none => .error .invalidUsername
  | some normalized => do
      validatePassword password
      if users.any fun u => u.username = normalized then
        .error .uniqueViolation
      else
        let user : DashboardUser := ⟨normalized, passwordHash, .storageAdmin, rfl, true, 1, Nat.one_pos⟩
        .ok (users ++ [user], user)

def DashboardUser.withPassword (passwordHash : String) (u : DashboardUser) : DashboardUser :=
  { u with
    passwordHash := passwordHash
    authVersion := u.authVersion + 1
    version_positive := Nat.succ_pos _ }

def changeDashboardUserPassword (username password passwordHash : String)
    (users : List DashboardUser) : Except DashboardError (List DashboardUser × Option DashboardUser) :=
  match normalizeUsername username with
  | none => .ok (users, none)
  | some normalized => do
      validatePassword password
      if users.any fun u => u.username = normalized && 2 ^ 63 ≤ u.authVersion + 1 then
        .error .outOfRange
      else
        let users := updateWhere (fun u => u.username = normalized)
          (DashboardUser.withPassword passwordHash) users
        .ok (users, users.find? fun u => u.username = normalized)

def deleteDashboardUser (username : String) (users : List DashboardUser) :
    Except DashboardError (List DashboardUser × Bool) :=
  match normalizeUsername username with
  | none => .ok (users, false)
  | some normalized =>
      match users.find? fun u => u.username = normalized with
      | none => .ok (users, false)
      | some target =>
          if target.enabled && users.countP DashboardUser.enabled ≤ 1 then
            .error .lastAdministrator
          else
            .ok (deleteWhere (fun u => u.username = normalized) users, true)

/-! ## Operator tokens -/

inductive TokenKind where
  | operator
  | service
  deriving DecidableEq, Repr

structure StorageJWTPayload where
  sub : String
  role : Role
  scopes : List String
  kind : TokenKind
  authVersion : Option Nat
  deriving DecidableEq, Repr

def operatorScopes : Role → List String
  | .viewer => ["read"]
  | .operator => ["read", "mutate"]
  | .storageAdmin => ["read", "mutate", "admin"]
  | .auditor => ["read", "audit"]

/-- `Number(n)` of a `BIGINT`: the nearest double, to even between two. -/
def toNumber (n : Nat) : Nat :=
  let unit := 2 ^ (n.size - 53)
  let rest := n % unit
  if 2 * rest < unit || (2 * rest = unit && n / unit % 2 = 0) then
    n / unit * unit
  else
    (n / unit + 1) * unit

def isSafeInteger (n : Nat) : Bool := n < 2 ^ 53

def signOperatorToken (sub : String) (role : Role) (authVersion : Nat) : StorageJWTPayload :=
  ⟨sub, role, operatorScopes role, .operator, some authVersion⟩

def loginToken (user : DashboardUser) : StorageJWTPayload :=
  signOperatorToken user.username.val user.role (toNumber user.authVersion)

def isDashboardSessionActive (users : List DashboardUser) (payload : StorageJWTPayload) : Bool :=
  if payload.kind ≠ .operator || !payload.authVersion.any isSafeInteger then
    false
  else
    (getDashboardUser users payload.sub).any fun user =>
      user.enabled && some (toNumber user.authVersion) = payload.authVersion

end ExternalStorage.Model
