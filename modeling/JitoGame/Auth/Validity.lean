import JitoGame.Auth.Alone
import JitoGame.Transactions.Inputs

namespace JitoGame.Auth

open Transactions AuthService

def UserStatus.text : UserStatus → String
  | .active => "active"
  | .suspended => "suspended"
  | .banned => "banned"

structure JwtPayload where
  sub : Option Uuid
  sid : Option Uuid
  deriving DecidableEq

namespace UserStatusGuard

inductive Rejection
  | unauthorized
  | sessionRevoked
  | accountSuspended
  | accountBanned
  deriving DecidableEq

def Rejection.status : Rejection → ℕ
  | .unauthorized | .sessionRevoked => 401
  | .accountSuspended | .accountBanned => 403

def Rejection.message : Rejection → String
  | .unauthorized => "UNAUTHORIZED"
  | .sessionRevoked => "SESSION_REVOKED"
  | .accountSuspended => "ACCOUNT_SUSPENDED"
  | .accountBanned => "ACCOUNT_BANNED"

variable {env : Env} (d : Db env.Hash)

def findSession (sub sid : Uuid) (now : ℕ) : Option Session :=
  d.sessions.find? fun s => s.id = sid ∧ s.userId = some sub ∧ s.revokedAt.isNone ∧ now < s.expiresAt

-- `cached` is what Redis holds; a Redis that is unavailable holds nothing
def getCachedStatus (cached : Option String) (userId : Uuid) : Except Rejection String :=
  match cached with
  | some status => pure status
  | none =>
    match d.userById userId with
    | none => throw .unauthorized
    | some user => pure user.status.text

def checkStatus (status : String) : Except Rejection Unit :=
  if status = "suspended" then throw .accountSuspended
  else if status = "banned" then throw .accountBanned
  else pure ()

def canActivate (cached : Option String) (payload : JwtPayload) (now : ℕ) : Except Rejection Unit :=
  match payload.sub, payload.sid with
  | some sub, some sid =>
    if (findSession d sub sid now).isNone then throw .sessionRevoked
    else getCachedStatus d cached sub >>= checkStatus
  | _, _ => throw .unauthorized

def AcceptsSession (sub sid : Uuid) (now : ℕ) : Prop :=
  ∀ cached, canActivate d cached ⟨some sub, some sid⟩ now ≠ .error .sessionRevoked

variable {d} {sub sid : Uuid} {now : ℕ} {e : Rejection}

theorem getCachedStatus_ne {cached : Option String} (h : getCachedStatus d cached sub = .error e) :
    e = .unauthorized := by
  unfold getCachedStatus at h
  split at h
  · cases h
  · split at h <;> cases h
    rfl

theorem checkStatus_ne (status : String) : checkStatus status ≠ .error .sessionRevoked := by
  unfold checkStatus
  split
  · exact fun h => by cases h
  · split <;> exact fun h => by cases h

theorem acceptsSession_iff : AcceptsSession d sub sid now ↔ (findSession d sub sid now).isSome = true := by
  cases hsession : findSession d sub sid now with
  | none =>
    refine ⟨fun h => absurd ?_ (h none), fun h => by cases h⟩
    simp only [canActivate, hsession, Option.isNone_none, ↓reduceIte]
    rfl
  | some s =>
    refine ⟨fun _ => rfl, fun _ cached heq => ?_⟩
    simp only [canActivate, hsession, Option.isNone_some, Bool.false_eq_true, ↓reduceIte] at heq
    cases hstatus : getCachedStatus d cached sub with
    | error e =>
      rw [hstatus, getCachedStatus_ne hstatus] at heq
      cases heq
    | ok status =>
      rw [hstatus] at heq
      exact checkStatus_ne status heq

theorem acceptsSession_row (hd : Keyed d.sessions) {x : Session} (hx : x ∈ d.sessions)
    (hu : x.userId = some sub) :
    AcceptsSession d sub x.id now ↔ x.revokedAt.isNone = true ∧ now < x.expiresAt := by
  rw [acceptsSession_iff, findSession, List.find?_isSome]
  constructor
  · rintro ⟨s, hs, hmatch⟩
    obtain ⟨hid, -, hlive⟩ := of_decide_eq_true hmatch
    rwa [hd.eq_of_id hs hx hid] at hlive
  · intro hlive
    exact ⟨x, hx, decide_eq_true ⟨rfl, hu, hlive⟩⟩

end UserStatusGuard

variable {env : Env} {d : Db env.Hash} {x : Session} {i : ℕ} {c : Call} {s : Local (schema env)}
variable {w : World (schema env)} {start : ℕ}

structure Issuable (d : Db env.Hash) (ip : String) (random : ℕ) : Prop where
  free : d.hasToken (env.hashToken (randomToken random)) = false
  hash : fitsVarchar 255 (env.hashToken (randomToken random)) = true
  ip : fitsVarchar 45 ip = true

theorem Issuable.fits {ip : String} {random : ℕ} (h : Issuable d ip random) (id owner : Uuid)
    (audience : Audience) (nowMs : ℕ) :
    (sessionRow env id owner audience ip none (randomToken random) nowMs).fits = true := by
  cases audience <;> simp [Session.fits, sessionRow, h.hash, h.ip]

theorem wp_insertSession_alone {random nowMs : ℕ} {ip : String} {userId : Uuid}
    {Q : Session → Local (schema env) → World (schema env) → Prop}
    {E : Err → Local (schema env) → World (schema env) → Prop} (hi : Issuable d ip random)
    (huser : (d.userById userId).isSome = true) (hw : Still (S := schema env) Db.Known d i w)
    (h : s.Running start [] [])
    (hE : ∀ s' w', s'.faulted = true → Still (S := schema env) Db.Known d i w' → E .fault s' w')
    (hQ : ∀ row ws s' w', s'.Running start ws [] → Still (S := schema env) Db.Known d i w' → Q row s' w') :
    wp (.sole Db.Known d i) i c (insertSession env userId .player ip none (randomToken random) nowMs)
      Q E s w := by
  rw [insertSession, wp_bind]
  apply hw.wp_exec h hE
  intro m s₁ w₁ _ _ hrun₁ hw₁
  rw [wp_bind, wp_require]
  refine ⟨fun _ => ?_, fun habsent => absurd huser habsent⟩
  rw [wp_bind]
  apply hw₁.wp_fresh
  intro id w₂ _ hw₂
  rw [wp_bind, wp_require]
  refine ⟨fun _ => ?_, fun hno => absurd (hi.fits id userId .player nowMs) hno⟩
  rw [wp_bind]
  apply hw₂.wp_insert (hrun₁.older.mint id) hE hi.free
  intro s₃ w₃ hrun₃ hw₃
  exact hQ _ _ s₃ w₃ hrun₃ hw₃

theorem wp_rotate_fed {random : ℕ} {ip role : String} {userId : Uuid} (hi : Issuable d ip random)
    (huser : (d.userById userId).isSome = true) (hx : x.userId = some userId)
    (hw : Still (S := schema env) Db.Known d i w) (h : s.Running start [] []) :
    wp (.sole Db.Known d i) i c ((rotate env x userId role ip).feed random)
      (fun o s' w' => (∃ tokens, o = .rotated tokens) ∧ (∃ ws, s'.Running start ws []) ∧
        Still (S := schema env) Db.Known d i w')
      (fun e s' w' => e = .fault ∧ s'.faulted = true ∧ Still (S := schema env) Db.Known d i w') s w := by
  have hplayer : audience x = .player := by simp [audience, isAdmin, hx]
  -- `random` is the first thing that `rotate` takes from outside
  change wp _ _ _ ((Prog.outside >>= fun nowMs =>
    insertSession env userId (audience x) ip none (randomToken random) nowMs >>= _) >>= _) _ _ _ _
  rw [hplayer, wp_bind, wp_bind]
  apply hw.wp_outside
  intro nowMs w₁ hw₁
  rw [wp_bind]
  refine wp_insertSession_alone hi huser hw₁ h (fun _ _ hf hw' => ⟨rfl, hf, hw'⟩)
    fun row ws s₂ w₂ hrun₂ hw₂ => ?_
  rw [wp_bind]
  apply hw₂.wp_outside
  intro jti w₃ hw₃
  rw [wp_pure, wp_bind]
  apply hw₃.wp_outside
  intro revokedAt w₄ hw₄
  rw [wp_bind]
  refine hw₄.wp_exec hrun₂ (fun _ _ hf hw' => ⟨rfl, hf, hw'⟩) fun m s₅ w₅ _ _ hrun₅ hw₅ => ?_
  exact ⟨⟨_, rfl⟩, ⟨_, hrun₅.older⟩, hw₅⟩

def Refreshed (r : Except Err Res) : Prop := ∃ tokens, r = .ok (.refreshed tokens)

theorem not_refreshed_error (e : Err) : ¬ Refreshed (.error e) := by
  rintro ⟨tokens, h⟩
  cases h

section Refresh

variable {rawToken ip : String} {X : Except Err Res → Prop}

theorem wp_refreshed {K : View (Db env.Hash) → Prog (schema env) RefreshOutcome}
    (hw : Still (S := schema env) Db.Known d i w) (htx : s.tx = none) (hclean : s.faulted = false)
    (hK : ∀ start s₁ w₁, s₁.Running start [] [] → Still (S := schema env) Db.Known d i w₁ →
      wp (.sole Db.Known d i) i c (K ⟨d, start⟩)
        (fun o s' w' => X (answer o) ∧ (∃ ws, s'.Running start ws []) ∧
          Still (S := schema env) Db.Known d i w')
        (fun _ s' w' => s'.faulted = true ∧ Still (S := schema env) Db.Known d i w') s₁ w₁) :
    wp (.sole Db.Known d i) i c
      (Prog.transaction (Prog.exec (S := schema env) .lockSession
        (fun v => (v.db.sessionOf (env.hashToken rawToken)).map fun s => .session s.id) (fun _ => []) >>=
          K) >>= fun o => Prog.check (answer o))
      (fun a s' _ => s'.faulted = true ∨ X (.ok a)) (fun e s' _ => s'.faulted = true ∨ X (.error e)) s w := by
  rw [wp_bind]
  refine hw.wp_transaction htx hclean (fun start s₁ w₁ hrun₁ hw₁ => ?_) fun _ _ _ hf _ => .inl hf
  rw [wp_bind]
  refine hw₁.wp_exec hrun₁ (fun _ _ hf hw' => ⟨hw', fun _ _ => .inl hf⟩) fun m s₂ w₂ _ _ hrun₂ hw₂ => ?_
  apply wp_mono _ (hK start s₂ w₂ hrun₂.older hw₂)
  · rintro o s' w' ⟨hX, ⟨ws, hrun⟩, hw'⟩
    refine ⟨ws, hrun, hw', fun w'' _ => ?_⟩
    rw [wp_check]
    exact ⟨fun a ha => .inr (ha ▸ hX), fun e he => .inr (he ▸ hX)⟩
  · exact fun e s' w' he => ⟨he.2, fun _ _ => .inl he.1⟩

theorem refresh_feed (n : ℕ) : (refresh env rawToken ip).feed n =
    Prog.transaction ((refreshTransaction env rawToken ip).feed n) >>= fun o => Prog.check (answer o) := by
  rw [← Prog.feed_transaction]
  exact Prog.feed_bind n _ fun o => Prog.closed_check _

theorem sessionOf_mem (hd : Keyed d.sessions) (hx : x ∈ d.sessions)
    (htoken : x.refreshTokenHash = env.hashToken rawToken) :
    d.sessionOf (env.hashToken rawToken) = some x := by
  cases hfind : d.sessionOf (env.hashToken rawToken) with
  | none =>
    have hnone := List.find?_eq_none.mp hfind x hx
    exact absurd (decide_eq_true htoken) hnone
  | some y =>
    have hy := List.mem_of_find?_eq_some hfind
    have htoken' : y.refreshTokenHash = env.hashToken rawToken := by simpa using List.find?_some hfind
    rw [List.inj_on_of_nodup_map hd.tokens hy hx (htoken'.trans htoken.symm)]

variable {t random : ℕ} {ns : List ℕ} {userId : Uuid} {r : Except Err Res}

theorem refresh_dead (hd : Keyed d.sessions) (hx : d.sessionOf (env.hashToken rawToken) = some x)
    (hdead : x.expiresAt < t ∨ x.revokedAt.isSome = true)
    (h : AnswersOn (S := schema env) (body env) Db.Known d (Call.refresh rawToken ip) (t :: ns) r) :
    ¬ Refreshed r := by
  obtain ⟨σ, p, hserves, hp, hr, hclean⟩ := h.feed.serves
  refine ((hserves.outcome (X := fun r s _ => s.faulted = true ∨ ¬ Refreshed r)
    (fun w hw => ?_) hp hr).1).resolve_left (by rw [hclean]; exact Bool.false_ne_true)
  change wp _ _ _ ((refresh env rawToken ip).feed t) _ _ _ _
  rw [refresh_feed, refreshTransaction, Prog.feed_exec]
  refine wp_refreshed (X := fun r => ¬ Refreshed r) hw rfl rfl
    fun start s₁ w₁ hrun₁ hw₁ => ?_
  simp only [hx]
  -- `t` is what `new Date()` returns
  change wp _ _ _ (if x.expiresAt < t then _ else _) _ _ _ _
  by_cases hexpired : x.expiresAt < t
  · rw [if_pos hexpired]
    exact ⟨not_refreshed_error _, ⟨_, hrun₁⟩, hw₁⟩
  · have hrevoked := hdead.resolve_left hexpired
    rw [if_neg hexpired, if_pos hrevoked, revokeReused]
    cases howner : ownerId x with
    | none => exact ⟨not_refreshed_error _, ⟨_, hrun₁⟩, hw₁⟩
    | some owner =>
      dsimp only
      rw [wp_bind, revokeAllSessions, wp_bind]
      apply hw₁.wp_outside
      intro revokedAt w₂ hw₂
      refine Still.wp_updateSessions hd hw₂ hrun₁ (fun _ _ hf hw' => ⟨hf, hw'⟩) fun s₃ w₃ hrun₃ hw₃ => ?_
      exact ⟨not_refreshed_error _, ⟨_, hrun₃⟩, hw₃⟩

theorem refresh_live (hx : d.sessionOf (env.hashToken rawToken) = some x)
    (hu : x.userId = some userId) (huser : (d.userById userId).isSome = true) (hi : Issuable d ip random)
    (hlive : ¬ x.expiresAt < t) (hrevoked : x.revokedAt = none)
    (h : AnswersOn (S := schema env) (body env) Db.Known d (Call.refresh rawToken ip) (t :: random :: ns) r) :
    Refreshed r := by
  obtain ⟨σ, p, hserves, hp, hr, hclean⟩ := h.feed.feed.serves
  refine ((hserves.outcome (X := fun r s _ => s.faulted = true ∨ Refreshed r)
    (fun w hw => ?_) hp hr).1).resolve_left (by rw [hclean]; exact Bool.false_ne_true)
  change wp _ _ _ (((refresh env rawToken ip).feed t).feed random) _ _ _ _
  rw [refresh_feed, Prog.feed_bind random _ fun o => Prog.closed_check _, Prog.feed_transaction,
    refreshTransaction, Prog.feed_exec, Prog.feed_exec]
  apply wp_refreshed (X := Refreshed) hw rfl rfl
  intro start s₁ w₁ hrun₁ hw₁
  simp only [hx]
  have howner : ownerId x = some userId := by rw [ownerId, hu, Option.some_or]
  have hplayer : isAdmin x = false := by rw [isAdmin, hu, Option.isNone_some]
  change wp _ _ _ (Prog.feed random (if x.expiresAt < t then _ else _)) _ _ _ _
  rw [if_neg hlive, hrevoked]
  simp only [Option.isSome_none, Bool.false_eq_true, ↓reduceIte, howner, rotateOwned, hplayer]
  apply wp_mono _ (wp_rotate_fed hi huser hu hw₁ hrun₁)
  · rintro o s' w' ⟨⟨tokens, rfl⟩, hrun, hw'⟩
    exact ⟨⟨tokens, rfl⟩, hrun, hw'⟩
  · exact fun e s' w' he => he.2

/-- `refresh` and the guard differ at the instant at which a live session expires, and only there. -/
theorem refresh_agrees_iff (hd : Keyed d.sessions) (hx : x ∈ d.sessions) (hu : x.userId = some userId)
    (huser : (d.userById userId).isSome = true) (htoken : x.refreshTokenHash = env.hashToken rawToken)
    (hi : Issuable d ip random)
    (h : AnswersOn (S := schema env) (body env) Db.Known d (Call.refresh rawToken ip) (t :: random :: ns) r) :
    (Refreshed r ↔ UserStatusGuard.AcceptsSession d userId x.id t) ↔
      x.revokedAt.isSome = true ∨ t ≠ x.expiresAt := by
  have hfind := sessionOf_mem hd hx htoken
  rw [UserStatusGuard.acceptsSession_row hd hx hu]
  by_cases hdead : x.expiresAt < t ∨ x.revokedAt.isSome = true
  · have hrefused := refresh_dead hd hfind hdead h
    cases hrevoked : x.revokedAt with
    | some n => simp [hrefused]
    | none =>
      rw [hrevoked] at hdead
      have hexpired := hdead.resolve_right Bool.false_ne_true
      simp only [hrefused, Option.isNone_none, true_and, Option.isSome_none, Bool.false_eq_true, false_or,
        false_iff]
      omega
  · rw [not_or, Option.not_isSome_iff_eq_none] at hdead
    have hrefreshed := refresh_live hfind hu huser hi hdead.1 hdead.2 h
    simp only [hrefreshed, hdead.2, Option.isNone_none, true_and, Option.isSome_none, Bool.false_eq_true,
      false_or, true_iff]
    omega

end Refresh

def refreshRun (now : ℕ) : List (Label sampleSchema) :=
  [.run 0, .run 0, .input 0 now, .input 0 7, .input 0 now, .run 0, .mint 0 (.ofNat 3), .run 0, .input 0 8,
    .input 0 now, .run 0, .run 0]

def tokensOf : Except Err Res → Option AuthTokens
  | .ok (.refreshed tokens) => some tokens
  | _ => none

theorem refreshed_refreshRun (now : ℕ) (h : ((((Policy.calls fun _ => False).steps (body sampleEnv)
      (alone (body sampleEnv) signedIn [Uuid.ofNat 2] (Call.refresh "a" "ip")) (refreshRun now)).bind
        State.answer).bind tokensOf).isSome = true) :
    ∃ r, Refreshed r ∧ AnswersOn (S := sampleSchema) (body sampleEnv) Db.Known signedIn
      (Call.refresh "a" "ip") [now, 7, now, 8, now] r := by
  obtain ⟨tokens, htokens⟩ := Option.isSome_iff_exists.mp h
  obtain ⟨r, hr, htokens⟩ := Option.bind_eq_some_iff.mp htokens
  refine ⟨r, ?_, .steps known_signedIn hr⟩
  unfold tokensOf at htokens
  split at htokens
  · exact ⟨_, rfl⟩
  · cases htokens

theorem issuable_signedIn : Issuable signedIn "ip" 7 := ⟨by decide, by decide, by decide⟩

theorem refresh_agrees_before_expiry : ∃ r, AnswersOn (S := sampleSchema) (body sampleEnv) Db.Known
    signedIn (Call.refresh "a" "ip") [999, 7, 999, 8, 999] r ∧ Refreshed r ∧
      UserStatusGuard.AcceptsSession signedIn (.ofNat 1) (.ofNat 2) 999 := by
  obtain ⟨r, hrefreshed, h⟩ := refreshed_refreshRun 999 (by decide)
  refine ⟨r, h, hrefreshed, Iff.mp ?_ hrefreshed⟩
  exact (refresh_agrees_iff sound_signedIn.toKeyed List.mem_cons_self rfl rfl rfl issuable_signedIn h).mpr
    (.inr (by decide))

theorem refresh_rotates_expired : ∃ r, AnswersOn (S := sampleSchema) (body sampleEnv) Db.Known signedIn
    (Call.refresh "a" "ip") [1000, 7, 1000, 8, 1000] r ∧ Refreshed r ∧
      ¬ UserStatusGuard.AcceptsSession signedIn (.ofNat 1) (.ofNat 2) 1000 := by
  obtain ⟨r, hrefreshed, h⟩ := refreshed_refreshRun 1000 (by decide)
  refine ⟨r, h, hrefreshed, ?_⟩
  rw [UserStatusGuard.acceptsSession_iff]
  decide

end JitoGame.Auth
