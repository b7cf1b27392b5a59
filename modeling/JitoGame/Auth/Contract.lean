import JitoGame.Auth.Discipline
import JitoGame.Transactions.Soundness

namespace JitoGame.Auth

open Transactions AuthService

variable (env : Env)

theorem Call.not_change {c : Call} {rawToken : String} (h : c.presents = some rawToken) :
    c.isChangePassword = false := by
  cases c with
  | changePassword => cases h
  | _ => rfl

/-! What a commit does to the content it finds. -/

structure Authenticates (dto : LoginDto) (u : User env.Hash) (m : Mark (schema env)) : Prop where
  tag : m.tag = .findUser
  user : m.db.userOf (trim dto.username) = some u
  password : env.verify u.passwordHash dto.password = true

structure Mistakes (dto : LoginDto) (u : User env.Hash) (m : Mark (schema env)) : Prop where
  tag : m.tag = .findUser
  user : m.db.userOf (trim dto.username) = some u
  password : env.verify u.passwordHash dto.password = false

structure AuthenticatesAdmin (dto : LoginDto) (a : AdminUser env.Hash) (m : Mark (schema env)) : Prop where
  tag : m.tag = .findAdmin
  admin : m.db.adminOf (trim dto.username) = some a
  active : a.status = .active
  password : env.verify a.passwordHash dto.password = true

structure Creates (row : Session) (owner : Uuid) (audience : Audience) (d : Db env.Hash) : Prop where
  eq_row : ∃ ip userAgent rawToken nowMs,
    row = sessionRow env row.id owner audience ip userAgent rawToken nowMs
  fresh : ¬ d.Known row.id
  token : d.hasToken row.refreshTokenHash = false

structure Rotates (rawToken : String) (s : Session) (owner : Uuid) (row : Session) (d : Db env.Hash) :
    Prop where
  mem : s ∈ d.sessions
  token : s.refreshTokenHash = env.hashToken rawToken
  live : s.revokedAt = none
  owned : ownerId s = some owner
  creates : Creates env row owner (audience s) d

def rotation (s : Session) (revokedAt : ℕ) (row : Session) : List (Write env.Hash) :=
  [.insertSession row, .replace s.id revokedAt row.id]

variable {env}

def failedLogin (u : User env.Hash) (nowMs : ℕ) : List (Write env.Hash) :=
  let newCount := u.failedLoginCount + 1
  [.failLogin u.id (if lockoutThreshold ≤ newCount then 0 else newCount)
    (if lockoutThreshold ≤ newCount then some (nowMs + lockoutDurationMs) else none)]

/-- The session `x` of the snapshot `m₀`, when the `UPDATE` got its lock: it is revoked if it is
still wanted, and keeps what was found until the commit. -/
def Revisited (wanted : Session → Bool) (m₀ : Mark (schema env)) (writes : List (Write env.Hash))
    (trace : List (Mark (schema env))) (d : Db env.Hash) (x : Session) : Prop :=
  ∃ m ∈ trace, m.tag = .revokeSession ∧ m.lock = some (.session x.id) ∧ Grows m₀.db m.db ∧
    (∀ y ∈ m.db.sessions, y.id = x.id → y ∈ d.sessions) ∧
    ∀ y ∈ m.db.sessions, y.id = x.id → wanted y = true → ∃ t, Write.revoke x.id t ∈ writes

def Sweeps (wanted : Session → Bool) (m₀ : Mark (schema env)) (writes : List (Write env.Hash))
    (trace : List (Mark (schema env))) (d : Db env.Hash) : Prop :=
  m₀ ∈ trace ∧ m₀.tag = .findSessions ∧
    ∀ x ∈ m₀.db.sessions, wanted x = true → Revisited wanted m₀ writes trace d x

def Revocations (writes : List (Write env.Hash)) : Prop := ∀ x ∈ writes, ∃ id t, x = .revoke id t

def Revokes (wanted : Session → Bool) (c : Commit (schema env)) (d : Db env.Hash) : Prop :=
  Revocations c.writes ∧ ∃ m, Sweeps wanted m c.writes c.trace d

def Bookkeeping : Write env.Hash → Prop
  | .resetFailures .. | .failLogin .. | .touchAdmin .. => True
  | _ => False

inductive Does (c : Commit (schema env)) (d : Db env.Hash) : Prop
  | rehash {dto : LoginDto} {ip : String} {userAgent : Option String} {u : User env.Hash}
      {m : Mark (schema env)} {salt : ℕ} (hc : c.call = .login dto ip userAgent) (hm : m ∈ c.trace)
      (hu : Authenticates env dto u m)
      (hw : c.writes = [.setPasswordHash u.id (env.hash dto.password salt)])
  | account {x : Write env.Hash} (hc : c.call.isChangePassword = false)
      (hw : c.writes = [x]) (hx : Bookkeeping x)
  | login {dto : LoginDto} {ip : String} {userAgent : Option String} {u : User env.Hash}
      {m : Mark (schema env)} {row : Session} (hc : c.call = .login dto ip userAgent)
      (hm : m ∈ c.trace) (hu : Authenticates env dto u m) (hw : c.writes = [.insertSession row])
      (h : Creates env row u.id .player d)
  | adminLogin {dto : LoginDto} {ip : String} {userAgent : Option String} {admin : Uuid}
      {row : Session} (hc : c.call = .adminLogin dto ip userAgent)
      (hw : c.writes = [.insertSession row]) (h : Creates env row admin .admin d)
  | rotation {rawToken : String} {s row : Session} {owner : Uuid} {t : ℕ}
      (hc : c.call.presents = some rawToken) (hw : c.writes = rotation env s t row)
      (h : Rotates env rawToken s owner row d)
  | revocation (hc : c.call.isChangePassword = false) (hw : Revocations c.writes)
  | change {userId : Uuid} {dto : ChangePasswordDto} {salt : ℕ} {ws : List (Write env.Hash)}
      {m : Mark (schema env)} (hc : c.call = .changePassword userId dto)
      (hu : (d.userById userId).isSome = true)
      (hw : c.writes = .setPasswordHash userId (env.hash dto.newPassword salt) :: ws)
      (hws : Revocations ws) (h : Sweeps (ownedLive userId false) m c.writes c.trace d)

/-! What a call returns. -/

def Commits (base : Db env.Hash) (i : ℕ) (w : World (schema env))
    (p : Commit (schema env) → Db env.Hash → Prop) : Prop :=
  ∃ c older, own i w.log = [c] ∧ (c :: older) <:+ w.log ∧ p c (replay base older)

def Rotated (rawToken : String) (tokens : AuthTokens) (c : Commit (schema env)) (d : Db env.Hash) :
    Prop :=
  ∃ s owner row t role jti, Rotates env rawToken s owner row d ∧ c.writes = rotation env s t row ∧
    tokens = issue env row owner (audience s) role tokens.refreshToken jti

def Reused (rawToken : String) (c : Commit (schema env)) (d : Db env.Hash) : Prop :=
  ∃ s ∈ d.sessions, s.refreshTokenHash = env.hashToken rawToken ∧ s.revokedAt.isSome = true ∧
    ∀ owner, ownerId s = some owner → Revokes (ownedLive owner (isAdmin s)) c d

def RefreshDone (base : Db env.Hash) (i : ℕ) (w : World (schema env)) (rawToken : String) :
    Except Err Res → Prop
  | .ok (.refreshed tokens) => Commits base i w (Rotated rawToken tokens)
  | .error .refreshTokenReused => Commits base i w (Reused rawToken)
  | _ => True

def Done (base : Db env.Hash) (i : ℕ) (w : World (schema env)) : Call → Except Err Res → Prop
  | .refresh rawToken _, r | .adminRefresh rawToken _, r => RefreshDone base i w rawToken r
  | .logoutAll userId, .ok _ => Commits base i w (Revokes (ownedLive userId false))
  | _, _ => True

def done (base : Db env.Hash) : Outcome (schema env) := fun i call r _ w => Done base i w call r

def protocol (base : Db env.Hash) : Protocol (schema env) := discipline base Does

end JitoGame.Auth
