import JitoGame.Auth.Accounts

namespace JitoGame.Auth

open Transactions

inductive Tag
  | findUser
  | findAdmin
  | findHash
  | findOwner
  | findRole
  | setPasswordHash
  | resetFailures
  | failLogin
  | touchAdmin
  | insertSession
  | lockSession
  | replaceSession
  -- the two halves of `session.updateMany`
  | findSessions
  | revokeSession
  deriving DecidableEq

structure LoginDto where
  username : String
  password : String
  deriving DecidableEq

structure ChangePasswordDto where
  currentPassword : String
  newPassword : String
  deriving DecidableEq

inductive Audience
  | player
  | admin
  deriving DecidableEq

def Audience.text : Audience → String
  | .player => "jito-player"
  | .admin => "jito-admin"

structure AccessToken where
  sub : Uuid
  aud : Audience
  role : String
  sid : Uuid
  jti : Uuid
  iss : String
  expiresIn : ℕ
  deriving DecidableEq

structure AuthTokens where
  accessToken : AccessToken
  refreshToken : String
  expiresIn : ℕ
  deriving DecidableEq

structure UserProfile where
  id : Uuid
  username : String
  email : Option String
  phone : Option String
  displayName : Option String
  status : UserStatus
  createdAt : ℕ
  deriving DecidableEq

structure AdminProfile where
  id : Uuid
  username : String
  role : AdminRole
  status : AdminStatus
  deriving DecidableEq

inductive RefreshOutcome
  | rotated (tokens : AuthTokens)
  | invalid
  | expired
  | reused
  deriving DecidableEq

inductive Call
  | login (dto : LoginDto) (ip : String) (userAgent : Option String)
  | adminLogin (dto : LoginDto) (ip : String) (userAgent : Option String)
  | refresh (rawToken ip : String)
  | adminRefresh (rawToken ip : String)
  | logout (sessionId : Uuid) (ownerId : Option Uuid) (isAdmin : Bool)
  | logoutAll (userId : Uuid)
  | changePassword (userId : Uuid) (dto : ChangePasswordDto)
  deriving DecidableEq

def Call.presents : Call → Option String
  | .refresh rawToken _ | .adminRefresh rawToken _ => some rawToken
  | _ => none

def Call.isChangePassword : Call → Bool
  | .changePassword .. => true
  | _ => false

inductive Res
  | loggedIn (tokens : AuthTokens) (user : UserProfile) (balanceMinor : String)
  | adminLoggedIn (tokens : AuthTokens) (admin : AdminProfile)
  | refreshed (tokens : AuthTokens)
  | done
  deriving DecidableEq

abbrev schema (env : Env) : Schema where
  Db := Db env.Hash
  Lock := Lock
  Write := Write env.Hash
  Id := Uuid
  Tag := Tag
  Call := Call
  Err := Err
  Res := Res
  apply := Write.apply
  fault := .fault

variable (env : Env)

-- what `String.prototype.trim` removes
def isSpace (c : Char) : Bool :=
  let n := c.toNat
  (9 ≤ n ∧ n ≤ 13) ∨ n = 32 ∨ n = 0xA0 ∨ n = 0x1680 ∨ (0x2000 ≤ n ∧ n ≤ 0x200A) ∨ n = 0x2028 ∨
    n = 0x2029 ∨ n = 0x202F ∨ n = 0x205F ∨ n = 0x3000 ∨ n = 0xFEFF

def trim (s : String) : String :=
  String.ofList ((s.toList.dropWhile isSpace).reverse.dropWhile isSpace).reverse

-- `randomBytes(32).toString('hex')`
def randomToken (n : ℕ) : String :=
  String.ofList ((Uuid.hexDigits 64 n).map Uuid.hexDigit)

/-- What `INCR` returns is an input; 0 stands for a Redis that is unavailable, which lets the request
through. -/
def checkRateLimit (max windowSeconds : ℕ) : Prog (schema env) Unit := do
  let current ← Prog.outside
  Prog.require (current ≤ max) (Err.rateLimitExceeded windowSeconds)

-- `update` throws when its row is missing
def updateUser (tag : Tag) (userId : Uuid) (x : Write env.Hash) : Prog (schema env) Unit := do
  let v ← Prog.exec (S := schema env) tag (fun v => (v.db.userById userId).map fun u => .user u.id)
    (fun v => if (v.db.userById userId).isSome then [x] else [])
  Prog.require ((v.db.userById userId).isSome = true) Err.recordNotFound

/-- `session.updateMany({ where, data: { revokedAt: new Date() } })` -/
def updateSessions (wanted : Session → Bool) (revokedAt : ℕ) : Prog (schema env) Unit :=
  Prog.updateMany (S := schema env) .findSessions .revokeSession
    (fun d => (d.sessions.filter wanted).map (·.id)) .session
    (fun id v => if v.db.sessions.any fun s => s.id = id ∧ wanted s then [.revoke id revokedAt] else [])

inductive PrismaExecutor
  | root
  | tx

def PrismaExecutor.run {α : Type} (body : Prog (schema env) α) : PrismaExecutor → Prog (schema env) α
  | .root => Prog.transaction body
  | .tx => body

namespace AuthService

def loginRateIpMax : ℕ := 5
def loginRateUserMax : ℕ := 10
def loginRateWindow : ℕ := 15 * 60

def lockoutThreshold : ℤ := 10
def lockoutDurationMs : ℕ := 15 * 60 * 1000

def sessionRow (id owner : Uuid) (audience : Audience) (ip : String) (userAgent : Option String)
    (rawToken : String) (nowMs : ℕ) : Session where
  id := id
  userId := if audience = .player then some owner else none
  adminId := if audience = .player then none else some owner
  refreshTokenHash := env.hashToken rawToken
  ipAddress := some ip
  userAgent := userAgent
  expiresAt := nowMs + env.jwtRefreshTtlSeconds * 1000
  revokedAt := none
  replacedBySessionId := none

def ownerExists (d : Db env.Hash) (owner : Uuid) : Audience → Bool
  | .player => (d.userById owner).isSome
  | .admin => (d.adminById owner).isSome

def issue (row : Session) (owner : Uuid) (audience : Audience) (role rawToken : String) (jti : ℕ) :
    AuthTokens where
  accessToken := ⟨owner, audience, role, row.id, .ofNat jti, env.jwtIssuer, env.jwtAccessTtlSeconds⟩
  refreshToken := rawToken
  expiresIn := env.jwtAccessTtlSeconds

-- `create` looks up the owner that it connects
def insertSession (owner : Uuid) (audience : Audience) (ip : String) (userAgent : Option String)
    (rawToken : String) (nowMs : ℕ) : Prog (schema env) Session := do
  let v ← Prog.select .findOwner
  Prog.require (ownerExists env v.db owner audience = true) Err.recordNotFound
  let id ← Prog.fresh
  let row := sessionRow env id owner audience ip userAgent rawToken nowMs
  Prog.require (row.fits = true) Err.databaseError
  Prog.insert (S := schema env) .insertSession (.tokenHash row.refreshTokenHash)
    (fun d => d.hasToken row.refreshTokenHash) [.insertSession row] .uniqueViolation
  pure row

def createSession (owner : Uuid) (audience : Audience) (role ip : String)
    (userAgent : Option String) (executor : PrismaExecutor) :
    Prog (schema env) (AuthTokens × Uuid) := do
  let random ← Prog.outside
  let rawToken := randomToken random
  let nowMs ← Prog.outside
  let row ← executor.run env (insertSession env owner audience ip userAgent rawToken nowMs)
  let jti ← Prog.outside
  pure (issue env row owner audience role rawToken jti, row.id)

def handleFailedLogin (userId : Uuid) (currentCount : ℤ) : Prog (schema env) Unit := do
  let newCount := currentCount + 1
  let shouldLock : Bool := lockoutThreshold ≤ newCount
  let nowMs ← Prog.outside
  Prog.transaction (updateUser env .failLogin userId (.failLogin userId
    (if shouldLock then 0 else newCount) (if shouldLock then some (nowMs + lockoutDurationMs) else none)))

def rehash (user : User env.Hash) (password : String) : Prog (schema env) Unit :=
  if env.needsRehash user.passwordHash then do
    let salt ← Prog.outside
    Prog.transaction (updateUser env .setPasswordHash user.id
      (.setPasswordHash user.id (env.hash password salt)))
  else pure ()

def toProfile (user : User env.Hash) : UserProfile :=
  ⟨user.id, user.username, user.email, user.phone, user.displayName, user.status, user.createdAt⟩

def startSession (user : User env.Hash) (balanceMinor : Option ℤ) (ip : String)
    (userAgent : Option String) : Prog (schema env) Res := do
  let lastLoginAt ← Prog.outside
  Prog.transaction (updateUser env .resetFailures user.id (.resetFailures user.id lastLoginAt))
  let (tokens, _) ← createSession env user.id .player "user" ip userAgent .root
  pure (.loggedIn tokens (toProfile env user) (toString (balanceMinor.getD 0)))

def completeLogin (user : User env.Hash) (balanceMinor : Option ℤ) (password ip : String)
    (userAgent : Option String) : Prog (schema env) Res := do
  rehash env user password
  startSession env user balanceMinor ip userAgent

def isLocked (user : User env.Hash) (now : ℕ) : Bool := user.lockedUntil.any fun t => now < t

def login (dto : LoginDto) (ip : String) (userAgent : Option String) : Prog (schema env) Res := do
  checkRateLimit env loginRateIpMax loginRateWindow
  checkRateLimit env loginRateUserMax loginRateWindow
  let v ← Prog.select .findUser
  match v.db.userOf (trim dto.username) with
  | none => Prog.fail Err.unauthorized
  | some user =>
    let now ← Prog.outside
    Prog.require (isLocked env user now = false) Err.unauthorized
    Prog.require (user.status = .active) Err.unauthorized
    if env.verify user.passwordHash dto.password then
      completeLogin env user (v.db.balanceOf user.id) dto.password ip userAgent
    else do
      handleFailedLogin env user.id user.failedLoginCount
      Prog.fail Err.unauthorized

def ownedLive (owner : Uuid) (isAdmin : Bool) (s : Session) : Bool :=
  (if isAdmin then s.adminId = some owner else s.userId = some owner) ∧ s.revokedAt.isNone

def revokeAllSessions (owner : Uuid) (isAdmin : Bool) : Prog (schema env) Unit := do
  let revokedAt ← Prog.outside
  updateSessions env (ownedLive owner isAdmin) revokedAt

def ownerId (s : Session) : Option Uuid := s.userId.or s.adminId

def isAdmin (s : Session) : Bool := s.userId.isNone

def audience (s : Session) : Audience := if isAdmin s then .admin else .player

def rotate (s : Session) (owner : Uuid) (role ip : String) : Prog (schema env) RefreshOutcome := do
  let (tokens, newSessionId) ← createSession env owner (audience s) role ip none .tx
  let revokedAt ← Prog.outside
  let _ ← Prog.exec (S := schema env) .replaceSession (fun _ => some (.session s.id))
    (fun _ => [.replace s.id revokedAt newSessionId])
  pure (.rotated tokens)

def revokeReused (s : Session) : Prog (schema env) RefreshOutcome :=
  match ownerId s with
  | none => pure .reused
  | some owner => do
    revokeAllSessions env owner (isAdmin s)
    pure .reused

def rotateOwned (s : Session) (owner : Uuid) (ip : String) : Prog (schema env) RefreshOutcome :=
  if isAdmin s then do
    let v ← Prog.select .findRole
    match v.db.adminById owner with
    | none => pure .invalid
    | some admin => rotate env s owner admin.role.text ip
  else rotate env s owner "user" ip

def refreshTransaction (rawToken ip : String) : Prog (schema env) RefreshOutcome := do
  let hash := env.hashToken rawToken
  let v ← Prog.exec (S := schema env) .lockSession
    (fun v => (v.db.sessionOf hash).map fun s => .session s.id) (fun _ => [])
  match v.db.sessionOf hash with
  | none => pure .invalid
  | some s =>
    let now ← Prog.outside
    if s.expiresAt < now then pure .expired
    else if s.revokedAt.isSome then revokeReused env s
    else
      match ownerId s with
      | none => pure .invalid
      | some owner => rotateOwned env s owner ip

def answer : RefreshOutcome → Except Err Res
  | .rotated tokens => .ok (.refreshed tokens)
  | .expired => .error .sessionExpired
  | .reused => .error .refreshTokenReused
  | .invalid => .error .sessionRevoked

def refresh (rawToken ip : String) : Prog (schema env) Res := do
  let outcome ← Prog.transaction (refreshTransaction env rawToken ip)
  Prog.check (answer outcome)

def ownedBy (owner : Option Uuid) (isAdmin : Bool) (s : Session) : Bool :=
  match owner with
  | none => true
  | some id => if isAdmin then s.adminId = some id else s.userId = some id

def logout (sessionId : Uuid) (owner : Option Uuid) (isAdmin : Bool) : Prog (schema env) Res := do
  let revokedAt ← Prog.outside
  Prog.transaction (updateSessions env
    (fun s => s.id = sessionId ∧ s.revokedAt.isNone ∧ ownedBy owner isAdmin s) revokedAt)
  pure .done

def logoutAll (userId : Uuid) : Prog (schema env) Res := do
  let revokedAt ← Prog.outside
  Prog.transaction (updateSessions env (ownedLive userId false) revokedAt)
  pure .done

end AuthService

namespace AdminAuthService

def adminLoginRateIpMax : ℕ := 5
def adminLoginRateIpWindow : ℕ := 15 * 60

def updateAdmin (adminId : Uuid) (lastLoginAt : ℕ) : Prog (schema env) Unit := do
  let v ← Prog.exec (S := schema env) .touchAdmin
    (fun v => (v.db.adminById adminId).map fun a => .admin a.id)
    (fun v => if (v.db.adminById adminId).isSome then [.touchAdmin adminId lastLoginAt] else [])
  Prog.require ((v.db.adminById adminId).isSome = true) Err.recordNotFound

def login (dto : LoginDto) (ip : String) (userAgent : Option String) : Prog (schema env) Res := do
  checkRateLimit env adminLoginRateIpMax adminLoginRateIpWindow
  let username := trim dto.username
  let v ← Prog.select .findAdmin
  match v.db.adminOf username with
  | none => Prog.fail Err.unauthorized
  | some admin =>
    Prog.require (admin.status = .active) Err.forbidden
    Prog.require (env.verify admin.passwordHash dto.password = true) Err.unauthorized
    let (tokens, _) ←
      AuthService.createSession env admin.id .admin admin.role.text ip userAgent .root
    let lastLoginAt ← Prog.outside
    Prog.transaction (updateAdmin env admin.id lastLoginAt)
    pure (.adminLoggedIn tokens ⟨admin.id, username, admin.role, admin.status⟩)

def refresh (rawToken ip : String) : Prog (schema env) Res := AuthService.refresh env rawToken ip

end AdminAuthService

namespace UsersService

def changePassword (userId : Uuid) (dto : ChangePasswordDto) : Prog (schema env) Res := do
  let v ← Prog.select .findHash
  match v.db.userById userId with
  | none => Prog.fail Err.recordNotFound
  | some user =>
    Prog.require (env.verify user.passwordHash dto.currentPassword = true) Err.unauthorized
    let salt ← Prog.outside
    let revokedAt ← Prog.outside
    Prog.transaction do
      updateUser env .setPasswordHash userId (.setPasswordHash userId (env.hash dto.newPassword salt))
      updateSessions env (AuthService.ownedLive userId false) revokedAt
    pure .done

end UsersService

def body : Call → Prog (schema env) Res
  | .login dto ip userAgent => AuthService.login env dto ip userAgent
  | .adminLogin dto ip userAgent => AdminAuthService.login env dto ip userAgent
  | .refresh rawToken ip => AuthService.refresh env rawToken ip
  | .adminRefresh rawToken ip => AdminAuthService.refresh env rawToken ip
  | .logout sessionId ownerId isAdmin => AuthService.logout env sessionId ownerId isAdmin
  | .logoutAll userId => AuthService.logoutAll env userId
  | .changePassword userId dto => UsersService.changePassword env userId dto

end JitoGame.Auth
