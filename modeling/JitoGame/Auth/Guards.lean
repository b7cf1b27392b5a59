import JitoGame.Auth.Provenance
import JitoGame.Auth.Validity
import JitoGame.Transactions.Later

namespace JitoGame.Auth

open Transactions AuthService

structure Claims extends JwtPayload where
  aud : String
  iss : String

def AccessToken.claims (token : AccessToken) : Claims where
  sub := some token.sub
  sid := some token.sid
  aud := token.aud.text
  iss := token.iss

inductive GuardRejection
  -- Passport has refused the token
  | unauthenticated
  | invalidAudience
  | malformedPayload
  | unauthorized
  | sessionRevoked
  | forbidden
  | user (e : UserStatusGuard.Rejection)
  deriving DecidableEq

def GuardRejection.status : GuardRejection → ℕ
  | .unauthenticated | .invalidAudience | .malformedPayload | .unauthorized | .sessionRevoked => 401
  | .forbidden => 403
  | .user e => e.status

def GuardRejection.message : GuardRejection → String
  | .unauthenticated => "Unauthorized"
  | .invalidAudience => "Invalid token audience"
  | .malformedPayload => "Malformed token payload"
  | .unauthorized => "UNAUTHORIZED"
  | .sessionRevoked => "SESSION_REVOKED"
  | .forbidden => "FORBIDDEN"
  | .user e => e.message

namespace JwtStrategy

def validate (expected : String) (payload : Claims) : Except GuardRejection Claims := do
  if payload.aud ≠ expected then throw .invalidAudience
  if payload.sub.isNone ∨ payload.sid.isNone then throw .malformedPayload
  pure payload

/-- Passport's own checks come first. `valid` is its verdict on the signature and the expiry. -/
def authenticate (issuer audience expected : String) (valid : Bool) (payload : Claims) :
    Except GuardRejection Claims := do
  if ¬ (valid = true ∧ payload.iss = issuer ∧ payload.aud = audience) then throw .unauthenticated
  validate expected payload

theorem aud_of_validate {expected : String} {payload payload' : Claims}
    (h : validate expected payload = .ok payload') : payload' = payload ∧ payload.aud = expected := by
  by_cases haud : payload.aud = expected
  · simp only [validate, haud, ne_eq, not_true_eq_false, ↓reduceIte] at h
    change (if _ then _ else _) = _ at h
    split at h
    · cases h
    · cases h
      exact ⟨rfl, haud⟩
  · simp only [validate, ne_eq, haud, not_false_eq_true, ↓reduceIte] at h
    cases h

theorem aud_of_authenticate {issuer audience expected : String} {valid : Bool} {payload payload' : Claims}
    (h : authenticate issuer audience expected valid payload = .ok payload') :
    payload' = payload ∧ payload.aud = expected := by
  by_cases hvalid : valid = true ∧ payload.iss = issuer ∧ payload.aud = audience
  · rw [authenticate, if_neg (not_not.mpr hvalid)] at h
    exact aud_of_validate h
  · rw [authenticate, if_pos hvalid] at h
    cases h

end JwtStrategy

namespace PlayerJwtStrategy

def validate : Claims → Except GuardRejection Claims := JwtStrategy.validate "jito-player"

def authenticate (jwtIssuer jwtAudiencePlayer : String) (valid : Bool) :
    Claims → Except GuardRejection Claims :=
  JwtStrategy.authenticate jwtIssuer jwtAudiencePlayer "jito-player" valid

end PlayerJwtStrategy

namespace AdminJwtStrategy

def validate : Claims → Except GuardRejection Claims := JwtStrategy.validate "jito-admin"

def authenticate (jwtIssuer jwtAudienceAdmin : String) (valid : Bool) :
    Claims → Except GuardRejection Claims :=
  JwtStrategy.authenticate jwtIssuer jwtAudienceAdmin "jito-admin" valid

end AdminJwtStrategy

variable {env : Env}

namespace AdminStatusGuard

def findSession (d : Db env.Hash) (sub sid : Uuid) (now : ℕ) : Option Session :=
  d.sessions.find? fun s => s.id = sid ∧ s.adminId = some sub ∧ s.revokedAt.isNone ∧ now < s.expiresAt

-- the session is looked up in `d`, and the administrator in `d'`
def canActivate (d d' : Db env.Hash) (payload : JwtPayload) (now : ℕ) : Except GuardRejection Unit :=
  match payload.sub, payload.sid with
  | some sub, some sid =>
    if (findSession d sub sid now).isNone then throw .sessionRevoked
    else
      match d'.adminById sub with
      | none => throw .unauthorized
      | some admin => if admin.status = .active then pure () else throw .forbidden
  | _, _ => throw .unauthorized

end AdminStatusGuard

namespace RolesGuard

-- a route without `@Roles()` has no required roles
def canActivate (requiredRoles : List AdminRole) (d : Db env.Hash) (payload : JwtPayload) :
    Except GuardRejection Unit :=
  if requiredRoles = [] then pure ()
  else
    match payload.sub with
    | none => throw .unauthorized
    | some sub =>
      match d.adminById sub with
      | none => throw .unauthorized
      | some admin => if admin.role ∈ requiredRoles then pure () else throw .forbidden

end RolesGuard

def playerGuards (jwtIssuer jwtAudiencePlayer : String) (valid : Bool) (d : Db env.Hash)
    (cached : Option String) (now : ℕ) (payload : Claims) : Except GuardRejection Unit := do
  let payload ← PlayerJwtStrategy.authenticate jwtIssuer jwtAudiencePlayer valid payload
  (UserStatusGuard.canActivate d cached payload.toJwtPayload now).mapError .user

def adminGuards (jwtIssuer jwtAudienceAdmin : String) (valid : Bool) (d d' d'' : Db env.Hash)
    (requiredRoles : List AdminRole) (now : ℕ) (payload : Claims) : Except GuardRejection Unit := do
  let payload ← AdminJwtStrategy.authenticate jwtIssuer jwtAudienceAdmin valid payload
  AdminStatusGuard.canActivate d d' payload.toJwtPayload now
  RolesGuard.canActivate requiredRoles d'' payload.toJwtPayload

section Pass

variable {d d' : Db env.Hash} {cached : Option String} {sub sid : Uuid} {now : ℕ}

theorem UserStatusGuard.session_of_pass (h : canActivate d cached ⟨some sub, some sid⟩ now = .ok ()) :
    ∃ x ∈ d.sessions, x.id = sid ∧ x.userId = some sub ∧ x.revokedAt = none ∧ now < x.expiresAt := by
  have haccepts : AcceptsSession d sub sid now := by
    rw [acceptsSession_iff]
    cases hfind : findSession d sub sid now with
    | none =>
      simp only [canActivate, hfind, Option.isNone_none, ↓reduceIte] at h
      cases h
    | some x => rfl
  obtain ⟨x, hfind⟩ := Option.isSome_iff_exists.mp (acceptsSession_iff.mp haccepts)
  have hx := List.find?_some hfind
  simp only [decide_eq_true_eq, Option.isNone_iff_eq_none] at hx
  exact ⟨x, List.mem_of_find?_eq_some hfind, hx⟩

theorem AdminStatusGuard.of_pass (h : canActivate d d' ⟨some sub, some sid⟩ now = .ok ()) :
    (∃ x ∈ d.sessions, x.id = sid ∧ x.adminId = some sub ∧ x.revokedAt = none ∧ now < x.expiresAt) ∧
      ∃ admin, d'.adminById sub = some admin ∧ admin.status = .active := by
  cases hfind : findSession d sub sid now with
  | none =>
    simp only [canActivate, hfind, Option.isNone_none, ↓reduceIte] at h
    cases h
  | some x =>
    simp only [canActivate, hfind, Option.isNone_some, Bool.false_eq_true, ↓reduceIte] at h
    have hx := List.find?_some hfind
    simp only [decide_eq_true_eq, Option.isNone_iff_eq_none] at hx
    refine ⟨⟨x, List.mem_of_find?_eq_some hfind, hx⟩, ?_⟩
    cases hadmin : d'.adminById sub with
    | none =>
      simp only [hadmin] at h
      cases h
    | some admin =>
      simp only [hadmin] at h
      split at h
      · exact ⟨admin, rfl, ‹_›⟩
      · cases h

theorem RolesGuard.of_pass {requiredRoles : List AdminRole} {payload : JwtPayload}
    (hsub : payload.sub = some sub) (h : canActivate requiredRoles d payload = .ok ()) :
    requiredRoles = [] ∨ ∃ admin, d.adminById sub = some admin ∧ admin.role ∈ requiredRoles := by
  by_cases hnone : requiredRoles = []
  · exact .inl hnone
  · refine .inr ?_
    simp only [canActivate, hnone, ↓reduceIte, hsub] at h
    cases hadmin : d.adminById sub with
    | none =>
      simp only [hadmin] at h
      cases h
    | some admin =>
      simp only [hadmin] at h
      split at h
      · exact ⟨admin, rfl, ‹_›⟩
      · cases h

end Pass

section Run

variable {K : Policy (schema env)} {base : Db env.Hash} {s s' : State (schema env)} {token : AccessToken}

inductive LoggedIn (c : Commit (schema env)) (sub : Uuid) : Audience → Prop
  | player {dto : LoginDto} {ip : String} {userAgent : Option String} {u : User env.Hash}
      {m : Mark (schema env)} (hc : c.call = .login dto ip userAgent) (hm : m ∈ c.trace)
      (hu : Authenticates env dto u m) (hactive : u.status = .active) (hid : u.id = sub) :
      LoggedIn c sub .player
  | admin {dto : LoginDto} {ip : String} {userAgent : Option String} {a : AdminUser env.Hash}
      {m : Mark (schema env)} (hc : c.call = .adminLogin dto ip userAgent) (hm : m ∈ c.trace)
      (ha : AuthenticatesAdmin env dto a m) (hid : a.id = sub) : LoggedIn c sub .admin

structure Backed (base : Db env.Hash) (s : State (schema env)) (token : AccessToken) (now : ℕ)
    (audience : Audience) : Prop where
  aud : token.aud = audience
  session : ∃ x ∈ s.world.db.sessions, x.id = token.sid ∧ x.revokedAt = none ∧ now < x.expiresAt ∧
    ∃ r, Descends s.world.db.sessions r x ∧
      (base.Known r.id ∨ ∃ c ∈ s.world.log, LoggedIn c token.sub audience)

structure Guarded (base : Db env.Hash) (s : State (schema env)) (token : AccessToken) : Prop where
  player : ∀ iss aud valid cached now,
    playerGuards iss aud valid s.world.db cached now token.claims = .ok () → Backed base s token now .player
  admin : ∀ iss aud valid d' d'' requiredRoles now,
    adminGuards iss aud valid s.world.db d' d'' requiredRoles now token.claims = .ok () →
      Backed base s token now .admin ∧ (∃ a, d'.adminById token.sub = some a ∧ a.status = .active) ∧
        (requiredRoles = [] ∨ ∃ a, d''.adminById token.sub = some a ∧ a.role ∈ requiredRoles)
  -- the look-up of the session keeps the two sides apart, without the audience
  session : (∀ cached now,
      UserStatusGuard.canActivate s.world.db cached ⟨some token.sub, some token.sid⟩ now = .ok () →
        token.aud = .player) ∧
    ∀ d' now, AdminStatusGuard.canActivate s.world.db d' ⟨some token.sub, some token.sid⟩ now = .ok () →
      token.aud = .admin

theorem Vouches.loggedIn {c : Commit (schema env)} {r : Session} (h : Vouches c r)
    (hissued : token.IssuedTo r) : LoggedIn c token.sub token.aud := by
  unfold AccessToken.IssuedTo at hissued
  cases haud : token.aud with
  | player =>
    rw [haud] at hissued
    cases h with
    | player hc hm hu hactive huser hadmin =>
      exact .player hc hm hu hactive (Option.some.inj (huser.symm.trans hissued.1))
    | admin _ _ _ huser _ => cases huser.symm.trans hissued.1
  | admin =>
    rw [haud] at hissued
    cases h with
    | player _ _ _ _ _ hadmin => cases hadmin.symm.trans hissued.1
    | admin hc hm ha huser hadmin =>
      exact .admin hc hm ha (Option.some.inj (hadmin.symm.trans hissued.1))

theorem Descends.issuedTo {l : List Session} {r x : Session} (h : Descends l r x)
    (hissued : token.IssuedTo x) : token.IssuedTo r := by
  unfold AccessToken.IssuedTo at hissued ⊢
  rw [h.userId, h.adminId]
  exact hissued

theorem Run.sound (h : Run K base s) (h₀ : Sound base.sessions) : Sound s.world.db.sessions := by
  rw [h.db_eq]
  exact sound_replay h₀ h.chronicle

theorem Run.backed (h : Run K base s) (h₀ : Sound base.sessions) {x : Session} {now : ℕ}
    (hx : x ∈ s.world.db.sessions) (hid : x.id = token.sid) (hissued : token.IssuedTo x)
    (hlive : x.revokedAt = none) (hnow : now < x.expiresAt) : Backed base s token now token.aud := by
  obtain ⟨r, hr, horigin⟩ : Traced base s.world.log s.world.db.sessions x := by
    have htraced := traced_replay h₀ h.chronicle h.vetted.ok.chronicle
    rw [← h.db_eq] at htraced
    exact htraced x hx
  refine ⟨rfl, x, hx, hid, hlive, hnow, r, hr, horigin.imp_right ?_⟩
  rintro ⟨c, hc, hvouches, -⟩
  exact ⟨c, hc, hvouches.loggedIn (hr.issuedTo hissued)⟩

theorem Signs.guarded (hsigns : Signs s.world.db token) (h : Run K base s) (h₀ : Sound base.sessions) :
    Guarded base s token := by
  obtain ⟨x, hx, hid, hissued⟩ := hsigns
  have hone {y : Session} (hy : y ∈ s.world.db.sessions) (hyid : y.id = token.sid) : y = x :=
    (h.sound h₀).eq_of_id hy hx (hyid.trans hid.symm)
  have hplayer {cached : Option String} {now : ℕ} (hpass : UserStatusGuard.canActivate s.world.db cached
      ⟨some token.sub, some token.sid⟩ now = .ok ()) : Backed base s token now .player := by
    obtain ⟨y, hy, hyid, huser, hlive, hnow⟩ := UserStatusGuard.session_of_pass hpass
    obtain rfl := hone hy hyid
    have haud : token.aud = .player := by
      unfold AccessToken.IssuedTo at hissued
      cases haud : token.aud with
      | player => rfl
      | admin =>
        rw [haud] at hissued
        cases huser.symm.trans hissued.2
    exact haud ▸ h.backed h₀ hy hyid hissued hlive hnow
  have hadmin {d' : Db env.Hash} {now : ℕ} (hpass : AdminStatusGuard.canActivate s.world.db d'
      ⟨some token.sub, some token.sid⟩ now = .ok ()) : Backed base s token now .admin := by
    obtain ⟨⟨y, hy, hyid, hadmin, hlive, hnow⟩, -⟩ := AdminStatusGuard.of_pass hpass
    obtain rfl := hone hy hyid
    have haud : token.aud = .admin := by
      unfold AccessToken.IssuedTo at hissued
      cases haud : token.aud with
      | admin => rfl
      | player =>
        rw [haud] at hissued
        cases hadmin.symm.trans hissued.2
    exact haud ▸ h.backed h₀ hy hyid hissued hlive hnow
  refine ⟨fun iss aud valid cached now hpass => ?_, fun iss aud valid d' d'' requiredRoles now hpass => ?_,
    fun cached now hpass => (hplayer hpass).aud, fun d' now hpass => (hadmin hpass).aud⟩
  · unfold playerGuards at hpass
    cases hauth : PlayerJwtStrategy.authenticate iss aud valid token.claims with
    | error e => rw [hauth] at hpass; cases hpass
    | ok payload =>
      obtain ⟨rfl, -⟩ := JwtStrategy.aud_of_authenticate hauth
      rw [hauth] at hpass
      apply hplayer
      · cases hguard : UserStatusGuard.canActivate s.world.db cached
            ⟨some token.sub, some token.sid⟩ now with
        | ok _ => rfl
        | error e =>
          change Except.mapError _ (UserStatusGuard.canActivate s.world.db cached
            ⟨some token.sub, some token.sid⟩ now) = _ at hpass
          rw [hguard] at hpass
          cases hpass
  · unfold adminGuards at hpass
    cases hauth : AdminJwtStrategy.authenticate iss aud valid token.claims with
    | error e => rw [hauth] at hpass; cases hpass
    | ok payload =>
      obtain ⟨rfl, -⟩ := JwtStrategy.aud_of_authenticate hauth
      rw [hauth] at hpass
      change (AdminStatusGuard.canActivate s.world.db d' ⟨some token.sub, some token.sid⟩ now >>=
        fun _ => RolesGuard.canActivate requiredRoles d'' token.claims.toJwtPayload) = _ at hpass
      cases hguard : AdminStatusGuard.canActivate s.world.db d' ⟨some token.sub, some token.sid⟩ now with
      | error e => rw [hguard] at hpass; cases hpass
      | ok _ =>
        rw [hguard] at hpass
        change RolesGuard.canActivate requiredRoles d'' token.claims.toJwtPayload = _ at hpass
        exact ⟨hadmin hguard, (AdminStatusGuard.of_pass hguard).2, RolesGuard.of_pass rfl hpass⟩

theorem Backed.not_revoked {now : ℕ} {audience : Audience} (h : Backed base s' token now audience)
    (hd : Sound s'.world.db.sessions) (hgrows : Grows s.world.db s'.world.db) {x : Session}
    (hx : x ∈ s.world.db.sessions) (hid : x.id = token.sid) : x.revokedAt = none := by
  obtain ⟨y, hy, hyid, hlive, -⟩ := h.session
  obtain ⟨x', hx', hsame⟩ := hgrows x hx
  obtain rfl := hd.eq_of_id hx' hy ((hsame.id.trans hid).trans hyid.symm)
  by_contra hrevoked
  have hrevoked' := hsame.revoked (Option.isSome_iff_ne_none.mpr hrevoked)
  rw [hlive] at hrevoked'
  cases hrevoked'

/-- Whatever comes after a call has been answered with a token, at whichever endpoint, the guards let
it pass on its own side only, for an account that has proved its password there, and not once its
session has been revoked. -/
theorem guards_of_run (h : Run K base s) (h₀ : Sound base.sessions)
    (hs : Reachable (body env) K.ok s s') {i : ℕ} {p : Proc (schema env)} (hp : s.procs i = some p)
    {a : Res} {tokens : AuthTokens} (hr : p.prog.Ends (.ok a)) (ha : a.tokens = some tokens) :
    Guarded base s' tokens.accessToken ∧
      ∀ x ∈ s.world.db.sessions, x.id = tokens.accessToken.sid → x.revokedAt.isSome = true →
        ∀ now audience, ¬ Backed base s' tokens.accessToken now audience := by
  have h' : Run K base s' := h.later hs
  have hgrows : Grows s.world.db s'.world.db := by
    rw [h.db_eq, h'.db_eq]
    exact grows_replay base hs.log_suffix
  refine ⟨((h.signs hp hr ha).mono hgrows).guarded h' h₀, fun x hx hid hrevoked now audience hbacked => ?_⟩
  rw [hbacked.not_revoked (h'.sound h₀) hgrows hx hid] at hrevoked
  cases hrevoked

end Run

theorem guards_of_stray_run : ∃ s p a tokens,
    (Policy.calls fun _ => True).steps (body sampleEnv) (initial freshDb []) strayRun = some s ∧
      s.procs 1 = some p ∧ p.prog.Ends (.ok a) ∧ a.tokens = some tokens ∧
      tokens.accessToken.aud = .player ∧ Guarded freshDb s tokens.accessToken := by
  obtain ⟨s, p, a, hs, hp, hr, ha⟩ := stray_answer
  obtain ⟨tokens, htokens, haccess⟩ := Option.map_eq_some_iff.mp ha
  have haud : tokens.accessToken.aud = .player := by
    have hpair := congrArg (·.2.1) haccess
    exact hpair
  exact ⟨s, p, a, tokens, hs, hp, hr, htokens, haud,
    (guards_of_run (.steps known_freshDb hs) .nil .refl hp hr htokens).1⟩

end JitoGame.Auth
