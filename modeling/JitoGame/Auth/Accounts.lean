import JitoGame.Database
import JitoGame.Transactions.Sweep

namespace JitoGame.Auth

open Transactions

/-- The libraries behind the services and their configuration. The `ℕ` of `hash` is the salt. -/
structure Env where
  Hash : Type
  hash : String → ℕ → Hash
  verify : Hash → String → Bool
  needsRehash : Hash → Bool
  hashToken : String → String
  jwtIssuer : String
  jwtAccessTtlSeconds : ℕ
  jwtRefreshTtlSeconds : ℕ

inductive UserStatus
  | active
  | suspended
  | banned
  deriving DecidableEq

inductive AdminStatus
  | active
  | inactive
  deriving DecidableEq

inductive AdminRole
  | superAdmin
  | operator
  | viewer
  deriving DecidableEq

def AdminRole.text : AdminRole → String
  | .superAdmin => "super_admin"
  | .operator => "operator"
  | .viewer => "viewer"

structure User (Hash : Type) where
  id : Uuid
  username : String
  email : Option String
  phone : Option String
  passwordHash : Hash
  displayName : Option String
  status : UserStatus
  failedLoginCount : ℤ
  lockedUntil : Option ℕ
  lastLoginAt : Option ℕ
  createdAt : ℕ

structure AdminUser (Hash : Type) where
  id : Uuid
  username : String
  passwordHash : Hash
  role : AdminRole
  status : AdminStatus
  lastLoginAt : Option ℕ

structure Session where
  id : Uuid
  userId : Option Uuid
  adminId : Option Uuid
  refreshTokenHash : String
  ipAddress : Option String
  userAgent : Option String
  expiresAt : ℕ
  revokedAt : Option ℕ
  replacedBySessionId : Option Uuid
  deriving DecidableEq

structure Db (Hash : Type) where
  users : List (User Hash)
  -- the balances of `points_accounts`, by user
  balances : List (Uuid × ℤ)
  adminUsers : List (AdminUser Hash)
  sessions : List Session

inductive Lock
  | user (id : Uuid)
  | admin (id : Uuid)
  | session (id : Uuid)
  -- the key of the unique index
  | tokenHash (hash : String)
  deriving DecidableEq

inductive Write (Hash : Type)
  | setPasswordHash (userId : Uuid) (passwordHash : Hash)
  | resetFailures (userId : Uuid) (lastLoginAt : ℕ)
  | failLogin (userId : Uuid) (failedLoginCount : ℤ) (lockedUntil : Option ℕ)
  | touchAdmin (adminId : Uuid) (lastLoginAt : ℕ)
  | insertSession (row : Session)
  | revoke (id : Uuid) (revokedAt : ℕ)
  | replace (id : Uuid) (revokedAt : ℕ) (successor : Uuid)

def Session.revoked (s : Session) (revokedAt : ℕ) : Session := { s with revokedAt := some revokedAt }

def Session.replaced (s : Session) (revokedAt : ℕ) (successor : Uuid) : Session :=
  { s with revokedAt := some revokedAt, replacedBySessionId := some successor }

variable {Hash : Type}

def Write.user : Write Hash → User Hash → User Hash
  | .setPasswordHash id h => fun u => if u.id = id then { u with passwordHash := h } else u
  | .resetFailures id t => fun u =>
    if u.id = id then { u with failedLoginCount := 0, lockedUntil := none, lastLoginAt := some t }
    else u
  -- an undefined `lockedUntil` leaves the column as it is
  | .failLogin id n t => fun u =>
    if u.id = id then { u with failedLoginCount := n, lockedUntil := t.or u.lockedUntil } else u
  | _ => id

def Write.admin : Write Hash → AdminUser Hash → AdminUser Hash
  | .touchAdmin id t => fun a => if a.id = id then { a with lastLoginAt := some t } else a
  | _ => id

def Write.session : Write Hash → Session → Session
  | .revoke id t => fun s => if s.id = id then s.revoked t else s
  | .replace id t successor => fun s => if s.id = id then s.replaced t successor else s
  | _ => id

def Write.newSessions : Write Hash → List Session
  | .insertSession row => [row]
  | _ => []

def Write.apply (x : Write Hash) (d : Db Hash) : Db Hash where
  users := d.users.map x.user
  balances := d.balances
  adminUsers := d.adminUsers.map x.admin
  sessions := d.sessions.map x.session ++ x.newSessions

namespace Db

variable (d : Db Hash)

def userOf (username : String) : Option (User Hash) := d.users.find? fun u => u.username = username

def userById (id : Uuid) : Option (User Hash) := d.users.find? fun u => u.id = id

def adminOf (username : String) : Option (AdminUser Hash) :=
  d.adminUsers.find? fun a => a.username = username

def adminById (id : Uuid) : Option (AdminUser Hash) := d.adminUsers.find? fun a => a.id = id

def balanceOf (userId : Uuid) : Option ℤ := (d.balances.find? fun b => b.1 = userId).map (·.2)

def sessionOf (refreshTokenHash : String) : Option Session :=
  d.sessions.find? fun s => s.refreshTokenHash = refreshTokenHash

def hasToken (refreshTokenHash : String) : Bool :=
  d.sessions.any fun s => s.refreshTokenHash = refreshTokenHash

end Db

def Session.fits (s : Session) : Bool :=
  fitsVarchar 255 s.refreshTokenHash ∧ s.ipAddress.all (fitsVarchar 45) ∧ s.userAgent.all fitsText ∧
    s.userId.isSome ≠ s.adminId.isSome

inductive Err
  -- the connection, a lock wait or the commit failed
  | fault
  -- Prisma's P2002 and P2025
  | uniqueViolation
  | recordNotFound
  -- any other error raised by the database
  | databaseError
  | rateLimitExceeded (retryAfter : ℕ)
  | unauthorized
  | forbidden
  | sessionExpired
  | sessionRevoked
  | refreshTokenReused
  deriving DecidableEq

def Err.status : Err → Option ℕ
  | .rateLimitExceeded _ => some 429
  | .unauthorized | .sessionExpired | .sessionRevoked | .refreshTokenReused => some 401
  | .forbidden => some 403
  | .fault | .uniqueViolation | .recordNotFound | .databaseError => none

def Err.message : Err → String
  | .rateLimitExceeded _ => "Too many requests. Please try again later."
  | .unauthorized => "UNAUTHORIZED"
  | .forbidden => "FORBIDDEN"
  | .sessionExpired => "SESSION_EXPIRED"
  | .sessionRevoked => "SESSION_REVOKED"
  | .refreshTokenReused => "REFRESH_TOKEN_REUSED"
  | .fault | .uniqueViolation | .recordNotFound | .databaseError => ""

end JitoGame.Auth
