import JitoGame.Auth.Services
import JitoGame.Traces
import Mathlib.Logic.Function.Basic

namespace JitoGame.Web

open Auth Auth.AuthService Function

/-! The session module of one tab, its requests on their way and the sessions on the server. -/

/-- What a session hands out: the access token names it, the refresh token finds it. -/
structure Token where
  sid : Uuid
  sub : Uuid
  -- the session of the login that it goes back to
  login : Uuid
  deriving DecidableEq

-- the paths of `authedRequest`
inductive AuthedPath
  | me
  | logout
  deriving DecidableEq

inductive Cause
  | login
  | refresh
  | authed (path : AuthedPath) (call : ℕ) (retry : Bool)
  deriving DecidableEq

inductive Answer
  | tokens (t : Token)
  | ok
  -- 401
  | unauthorized
  -- any other status, or none
  | failed
  deriving DecidableEq

inductive Stage
  | sent
  -- let through by the guards
  | admitted
  | answered (a : Answer)
  | arrived (a : Answer)
  | settled (a : Answer)
  deriving DecidableEq

structure Request where
  cause : Cause
  accessToken : Option Token
  cookie : Option Token
  -- the logins and logouts that had resolved when it was sent
  born : ℕ
  stage : Stage
  deriving DecidableEq

-- a call of `authedRequest`
inductive AuthedCall
  | waiting (path : AuthedPath) (retry : Bool) (refresh : ℕ)
  | requesting
  | done
  deriving DecidableEq

/-- What the login or logout that resolved last promises. -/
inductive Owed
  | nothing
  | noToken
  | tokenOf (login : Uuid)
  deriving DecidableEq

structure Tab where
  accessToken : Option Token
  refreshInFlight : Option ℕ
  restoreInFlight : Option ℕ
  cookie : Option Token
  calls : ℕ → Option AuthedCall
  requests : ℕ → Option Request
  sessions : List Session
  -- only the record of a run
  clock : ℕ
  owed : Owed
  overtaken : Bool
  closed : List Uuid
  replayed : Bool
  swept : Bool

namespace Tab

variable (s : Tab)

def hasAccessToken : Bool := s.accessToken.isSome

def clearSession : Tab := { s with accessToken := none }

/-! What the tab sends. -/

def setCall (c : ℕ) (call : AuthedCall) : Tab := { s with calls := update s.calls c (some call) }

def send (r : ℕ) (cause : Cause) (accessToken : Option Token) : Tab :=
  { s with requests := update s.requests r (some ⟨cause, accessToken, s.cookie, s.clock, .sent⟩) }

def mark (r : ℕ) (q : Request) (stage : Stage) : Tab :=
  { s with requests := update s.requests r (some { q with stage }) }

def loginWithPassword (r : ℕ) : Tab := s.send r .login none

def refreshAccessToken (r : ℕ) : Tab :=
  match s.refreshInFlight with
  | some _ => s
  | none => { s.send r .refresh none with refreshInFlight := some r }

def awaitRefresh (c r : ℕ) (path : AuthedPath) (retry : Bool) : Tab :=
  (s.refreshAccessToken r).setCall c (.waiting path retry (s.refreshInFlight.getD r))

def attempt (c r : ℕ) (path : AuthedPath) (retry : Bool) : Tab :=
  (s.send r (.authed path c retry) s.accessToken).setCall c .requesting

def authedRequest (c r : ℕ) (path : AuthedPath) : Tab :=
  if s.hasAccessToken then s.attempt c r path false else s.awaitRefresh c r path false

def fetchCurrentSession (c r : ℕ) : Tab := s.authedRequest c r .me

def restoreSession (c r : ℕ) : Tab :=
  match s.restoreInFlight with
  | some _ => s
  | none => { s.fetchCurrentSession c r with restoreInFlight := some c }

def logoutSession (c r : ℕ) : Tab := s.authedRequest c r .logout

/-! How it goes on. -/

def loggedIn (t : Token) : Tab :=
  { s with accessToken := some t, clock := s.clock + 1, owed := .tokenOf t.sid, overtaken := false }

def loggedOut : Tab :=
  { s.clearSession with clock := s.clock + 1, owed := .noToken, overtaken := false }

def refreshed (q : Request) (t : Token) : Tab :=
  { s with
    accessToken := some t
    owed := if s.owed = .noToken ∧ q.born = s.clock then .nothing else s.owed
    overtaken := s.overtaken || q.born ≠ s.clock }

/-- The server has refused a session: nothing more is owed if it was that of the login. -/
def refused (session : Option Token) : Tab :=
  { s with
    owed := if session.map (fun t => .tokenOf t.login) = some s.owed then .nothing else s.owed }

def unrefreshed (q : Request) : Tab :=
  s.clearSession.refused (if q.born = s.clock then q.cookie else none)

def finish (c : ℕ) (path : AuthedPath) : Tab :=
  match path with
  | .me => s.setCall c .done
  | .logout => (s.setCall c .done).loggedOut

def settle (q : Request) (a : Answer) (r : ℕ) : Tab :=
  match q.cause, a with
  | .login, .tokens t => s.loggedIn t
  | .login, _ => s
  | .refresh, .tokens t => s.refreshed q t
  | .refresh, .unauthorized => s.unrefreshed q
  | .refresh, _ => s
  | .authed path c false, .unauthorized =>
    (s.clearSession.refused q.accessToken).awaitRefresh c r path true
  | .authed path c true, .unauthorized => (s.refused q.accessToken).finish c path
  | .authed path c _, _ => s.finish c path

def wake (c r : ℕ) (path : AuthedPath) (retry : Bool) : Answer → Tab
  | .tokens _ => s.attempt c r path retry
  | _ => s.finish c path

def setCookie (q : Request) : Answer → Tab
  | .tokens t => { s with cookie := some t }
  | .ok => match q.cause with
    | .authed .logout _ _ => { s with cookie := none }
    | _ => s
  | _ => s

end Tab

/-! What the server does. -/

inductive Verdict
  | process
  -- an expired token or session, a wrong password
  | deny
  -- 403, 429, 5xx
  | fail
  deriving DecidableEq

def opens (rows : List Session) (row : Session) : Bool :=
  rows.all (fun x => x.id ≠ row.id) ∧ row.revokedAt = none ∧ row.replacedBySessionId = none

def revokeReused (rows : List Session) (x : Session) (now : ℕ) : List Session :=
  match ownerId x with
  | none => rows
  | some owner => rows.map fun y => if ownedLive owner (isAdmin x) y then y.revoked now else y

def rotated (rows : List Session) (x row : Session) (now : ℕ) : List Session :=
  (rows ++ [row]).map fun y => if y.id = x.id then y.replaced now row.id else y

-- the session check of `UserStatusGuard`
def canActivate (rows : List Session) (token : Option Token) : Bool :=
  token.any fun t => rows.any fun x => x.id = t.sid ∧ x.userId = some t.sub ∧ x.revokedAt.isNone

def wanted (t : Token) (x : Session) : Bool :=
  x.id = t.sid ∧ x.revokedAt.isNone ∧ ownedBy (some t.sub) false x

namespace Tab

variable (s : Tab)

def answer (r : ℕ) (q : Request) (a : Answer) : Tab := s.mark r q (.answered a)

namespace AuthController

def login (r : ℕ) (q : Request) (row : Session) : Option Tab :=
  match row.userId with
  | none => none
  | some sub =>
    if opens s.sessions row then
      some (answer { s with sessions := s.sessions ++ [row] } r q (.tokens ⟨row.id, sub, row.id⟩))
    else none

def refresh (r : ℕ) (q : Request) (row : Session) (now : ℕ) : Option Tab :=
  match q.cookie with
  | none => some (s.answer r q .unauthorized)
  | some t =>
    match s.sessions.find? fun x => x.id = t.sid with
    | none => some (s.answer r q .unauthorized)
    | some x =>
      if x.revokedAt.isSome then
        some (answer { s with sessions := revokeReused s.sessions x now, swept := true } r q
          .unauthorized)
      else if (ownerId x).isNone then some (s.answer r q .unauthorized)
      else if opens s.sessions row ∧ row.userId = x.userId ∧ row.adminId = x.adminId then
        some (answer { s with sessions := rotated s.sessions x row now } r q
          (.tokens ⟨row.id, t.sub, t.login⟩))
      else none

def me (r : ℕ) (q : Request) : Tab :=
  s.answer r q (if canActivate s.sessions q.accessToken then .ok else .unauthorized)

/-- Up to the guards. -/
def enterLogout (r : ℕ) (q : Request) : Tab :=
  if canActivate s.sessions q.accessToken then s.mark r q .admitted else s.answer r q .unauthorized

def logout (r : ℕ) (q : Request) (now : ℕ) : Option Tab :=
  q.accessToken.map fun t =>
    answer { s with
      sessions := s.sessions.map fun x => if wanted t x then x.revoked now else x
      closed := (s.sessions.filter (wanted t)).map (·.id) ++ s.closed } r q .ok

end AuthController

def replays (q : Request) : Bool :=
  q.stage = .sent ∧ q.cause = .refresh ∧
    q.cookie.any fun t => s.sessions.any fun x => x.id = t.sid ∧ x.revokedAt.isSome

def serve (r : ℕ) (q : Request) (v : Verdict) (row : Session) (now : ℕ) : Option Tab :=
  match q.stage, v with
  | .sent, .process => match q.cause with
    | .login => AuthController.login s r q row
    | .refresh => AuthController.refresh s r q row now
    | .authed .me _ _ => some (AuthController.me s r q)
    | .authed .logout _ _ => some (AuthController.enterLogout s r q)
  | .admitted, .process => AuthController.logout s r q now
  | .sent, .deny => some (s.answer r q .unauthorized)
  | .sent, .fail | .admitted, .fail => some (s.answer r q .failed)
  | _, _ => none

end Tab

inductive Label
  | loginWithPassword (r : ℕ)
  | refreshAccessToken (r : ℕ)
  | fetchCurrentSession (c r : ℕ)
  | restoreSession (c r : ℕ)
  | logoutSession (c r : ℕ)
  | serve (r : ℕ) (v : Verdict) (row : Session) (now : ℕ)
  -- the headers of the response: the browser keeps the cookie
  | arrive (r : ℕ)
  | lose (r : ℕ)
  -- the continuation of a request
  | resume (r new : ℕ)
  | wake (c new : ℕ)
  -- the two `finally`
  | refreshSettled
  | restoreSettled

def Stage.lost : Stage → Bool
  | .sent | .admitted | .answered _ => true
  | _ => false

namespace Tab

def isNew (s : Tab) (r : ℕ) : Bool := (s.requests r).isNone

def isNewCall (s : Tab) (c : ℕ) : Bool := (s.calls c).isNone

/-- A step of the tab, the network or the server. A network that is not `lossy` brings every answer. -/
def step (lossy : Bool) (s : Tab) : Label → Option Tab
  | .loginWithPassword r => if s.isNew r then some (s.loginWithPassword r) else none
  | .refreshAccessToken r => if s.isNew r then some (s.refreshAccessToken r) else none
  | .fetchCurrentSession c r =>
    if s.isNew r ∧ s.isNewCall c then some (s.fetchCurrentSession c r) else none
  | .restoreSession c r => if s.isNew r ∧ s.isNewCall c then some (s.restoreSession c r) else none
  | .logoutSession c r => if s.isNew r ∧ s.isNewCall c then some (s.logoutSession c r) else none
  | .serve r v row now => do
    let q ← s.requests r
    let s' ← s.serve r q v row now
    pure { s' with replayed := s.replayed || s.replays q }
  | .arrive r => do
    let q ← s.requests r
    match q.stage with
    | .answered a => pure ((s.mark r q (.arrived a)).setCookie q a)
    | _ => none
  | .lose r => do
    let q ← s.requests r
    if lossy ∧ q.stage.lost then pure (s.mark r q (.arrived .failed)) else none
  | .resume r new => do
    let q ← s.requests r
    match q.stage with
    | .arrived a => if s.isNew new then pure ((s.mark r q (.settled a)).settle q a new) else none
    | _ => none
  | .wake c new =>
    match s.calls c with
    | some (.waiting path retry r) => do
      let q ← s.requests r
      match q.stage with
      | .settled a =>
        if s.isNew new ∧ s.refreshInFlight ≠ some r then pure (s.wake c new path retry a) else none
      | _ => none
    | _ => none
  | .refreshSettled => do
    let r ← s.refreshInFlight
    let q ← s.requests r
    match q.stage with
    | .settled _ => pure { s with refreshInFlight := none }
    | _ => none
  | .restoreSettled => do
    let c ← s.restoreInFlight
    let call ← s.calls c
    if call = .done then pure { s with restoreInFlight := none } else none

end Tab

end JitoGame.Web
