import JitoGame.Auth.Rules
import JitoGame.Transactions.Run

namespace JitoGame.Auth

open Transactions AuthService

variable {env : Env} {base : Db env.Hash} {spec : Commit (schema env) → Db env.Hash → Prop}
variable {i : ℕ} {c : Call} {s : Local (schema env)} {w : World (schema env)} {start : ℕ}
variable {α : Type}

section Steps

variable {Q : Unit → Local (schema env) → World (schema env) → Prop}

theorem wp_checkRateLimit {E : Err → Local (schema env) → World (schema env) → Prop} {n seconds : ℕ}
    (hE : ∀ e s' w', E e s' w')
    (hQ : ∀ w', Q () s w') : wp (discipline base spec) i c (checkRateLimit env n seconds) Q E s w := by
  rw [checkRateLimit, wp_bind]
  apply wp_outside_along
  intro current w' _
  rw [wp_require]
  exact ⟨fun _ => hQ w', fun _ => hE _ s w'⟩

theorem wp_updateUser_alone (h : s.tx = none) {tag : Tag} {userId : Uuid} {x : Write env.Hash}
    (hx : footprint x = [.row (.user userId)])
    (hspec : ∀ com d, com.call = c → s.trace ⊆ com.trace → com.writes = [x] → spec com d)
    (hQ : ∀ s' w', s'.tx = none → s.trace ⊆ s'.trace → Q () s' w') :
    wp (discipline base spec) i c (Prog.transaction (updateUser env tag userId x)) Q
      (fun _ _ _ => True) s w := by
  refine wp_transaction_out h (fun s₁ w₁ hin hal => ?_) fun _ _ _ _ _ => trivial
  apply wp_updateUser hin hx (fun _ _ _ _ _ _ _ => trivial)
  intro s' w' hin' hal' _
  have htrace := (hal.trans hal').trace.subset
  exact ⟨_, _, hin', hal.trans hal', fun w₂ _ => ⟨hspec _ _ rfl htrace rfl,
    fun _ => hQ _ _ rfl htrace⟩⟩

theorem wp_updateAdmin_alone (h : s.tx = none) {adminId : Uuid} {lastLoginAt : ℕ}
    (hspec : ∀ com d, com.call = c → com.writes = [.touchAdmin adminId lastLoginAt] → spec com d)
    (hQ : ∀ s' w', Grows w.db w'.db → Q () s' w') :
    wp (discipline base spec) i c
      (Prog.transaction (AdminAuthService.updateAdmin env adminId lastLoginAt)) Q
      (fun _ _ _ => True) s w := by
  refine wp_transaction_out h (fun s₁ w₁ hin hal => ?_) fun _ _ _ _ _ => trivial
  apply wp_updateAdmin hin (fun _ _ _ _ _ _ _ => trivial)
  intro s' w' hin' hal'
  refine ⟨_, _, hin', hal.trans hal', fun w₂ hrely => ⟨hspec _ _ rfl rfl, fun _ => hQ _ _ ?_⟩⟩
  have hgrows : Grows w.db w₂.db := ((hal.trans hal').rely' hrely).rely.le
  exact hgrows.trans (grows_apply _ _)

variable (env) in
structure Opened (row : Session) (owner : Uuid) (audience : Audience) (d : Db env.Hash) : Prop where
  created : ∃ d₀, Creates env row owner audience d₀
  stored : ∃ x ∈ d.sessions, row.Same x

theorem Opened.mono {row : Session} {owner : Uuid} {audience : Audience} {d d' : Db env.Hash}
    (h : Opened env row owner audience d) (hle : Grows d d') : Opened env row owner audience d' := by
  obtain ⟨x, hx, hsame⟩ := h.stored
  obtain ⟨x', hx', hsame'⟩ := hle x hx
  exact ⟨h.created, x', hx', hsame.trans hsame'⟩

theorem wp_createSession_alone {Q : AuthTokens × Uuid → Local (schema env) → World (schema env) → Prop}
    (h : s.tx = none) {owner : Uuid} {audience : Audience} {role ip : String}
    {userAgent : Option String}
    (hspec : ∀ com d row, com.call = c → s.trace ⊆ com.trace → com.writes = [.insertSession row] →
      Creates env row owner audience d → spec com d)
    (hQ : ∀ row rawToken jti s' w', s'.tx = none → Opened env row owner audience w'.db →
      Q (issue env row owner audience role rawToken jti, row.id) s' w') :
    wp (discipline base spec) i c (createSession env owner audience role ip userAgent .root) Q
      (fun _ _ _ => True) s w := by
  rw [createSession, wp_bind]
  apply wp_outside_along
  intro random w₁ _
  rw [wp_bind]
  apply wp_outside_along
  intro nowMs w₂ _
  rw [wp_bind]
  refine wp_transaction_out h (fun s₃ w₃ hin hal => ?_) fun _ _ _ _ _ => trivial
  apply wp_insertSession hin (fun _ _ _ _ _ _ _ => trivial)
  intro s' w' row hin' hal' hcreates
  refine ⟨_, _, hin', hal.trans hal', fun w₄ hrely => ?_⟩
  have hnew := hcreates w₄ hrely
  refine ⟨hspec _ _ row rfl (hal.trans hal').trace.subset rfl hnew, fun _ => ?_⟩
  rw [wp_bind]
  apply wp_outside_along
  intro jti w₅ hal₅
  refine hQ row _ jti _ w₅ rfl (Opened.mono ⟨⟨_, hnew⟩, row, ?_, .refl row⟩ hal₅.rely.le)
  exact mem_sessions_apply.mpr (.inr (List.mem_singleton_self row))

theorem wp_updateSessions_alone {E : Err → Local (schema env) → World (schema env) → Prop}
    (h : s.tx = none) {wanted : Session → Bool} {revokedAt : ℕ}
    (hE : ∀ e s' w', Along (discipline base spec) i s w s' w' → e ≠ .refreshTokenReused → E e s' w')
    (hQ : ∀ (com : Commit (schema env)) m s' w', World.Ok (discipline base spec) w' →
      own i w'.log = own i w.log → com.proc = i → com.call = c → Revocations com.writes →
      Sweeps wanted m com.writes com.trace w'.db → spec com w'.db ∧ Q () s' (w'.push com)) :
    wp (discipline base spec) i c (Prog.transaction (updateSessions env wanted revokedAt)) Q E s w := by
  refine wp_transaction_out h (fun s₁ w₁ hin hal => ?_) fun s' w' _ _ hal => hE _ s' w' hal fault_ne
  refine wp_updateSessions hin (fun _ hx => by cases hx) (fun e s' w' hal' he w₂ hrely => ?_)
    fun s' w' m ws' hin' hal' hrevoke hsweep => ?_
  · exact hE e _ w₂ (((hal.trans hal').rely' hrely).ended h) he
  · refine ⟨_, _, hin', hal.trans hal', fun w₂ hrely => ?_⟩
    have hboth := hQ ⟨i, c, w₁.clock, w₂.clock, ws', s'.trace⟩ m s'.ended w₂ hrely.ok
      (hrely.own.trans (hal.trans hal').own) rfl rfl hrevoke (hsweep w₂ hrely)
    exact ⟨hboth.1, fun _ => hboth.2⟩

end Steps

/-! Under which specifications the calls keep to the discipline. -/

structure LoginSpec (spec : Commit (schema env) → Db env.Hash → Prop) (c : Call) (dto : LoginDto) :
    Prop where
  rehash : ∀ com d m u salt, com.call = c → m ∈ com.trace → Authenticates env dto u m →
    com.writes = [.setPasswordHash u.id (env.hash dto.password salt)] → spec com d
  failure : ∀ com d m u nowMs, com.call = c → m ∈ com.trace → Mistakes env dto u m →
    com.writes = failedLogin u nowMs → spec com d
  reset : ∀ com d m u lastLoginAt, com.call = c → m ∈ com.trace → Authenticates env dto u m →
    com.writes = [.resetFailures u.id lastLoginAt] → spec com d
  session : ∀ com d m u row, com.call = c → m ∈ com.trace → Authenticates env dto u m →
    com.writes = [.insertSession row] → Creates env row u.id .player d → spec com d

structure LoginSteps (spec : Commit (schema env) → Db env.Hash → Prop) (c : Call) (dto : LoginDto)
    (u : User env.Hash) (m : Mark (schema env)) : Prop where
  rehash : ∀ com d salt, com.call = c → m ∈ com.trace → Authenticates env dto u m →
    com.writes = [.setPasswordHash u.id (env.hash dto.password salt)] → spec com d
  failure : ∀ com d nowMs, com.call = c → m ∈ com.trace → Mistakes env dto u m →
    com.writes = failedLogin u nowMs → spec com d
  reset : ∀ com d lastLoginAt, com.call = c → m ∈ com.trace → Authenticates env dto u m →
    com.writes = [.resetFailures u.id lastLoginAt] → spec com d
  session : ∀ com d row, com.call = c → m ∈ com.trace → Authenticates env dto u m →
    com.writes = [.insertSession row] → Creates env row u.id .player d → spec com d

section Login

variable {dto : LoginDto} {ip : String} {userAgent : Option String} {u : User env.Hash}
variable {m : Mark (schema env)}

theorem LoginSpec.steps (h : LoginSpec spec c dto) (u : User env.Hash) (m : Mark (schema env)) :
    LoginSteps spec c dto u m where
  rehash com d salt := h.rehash com d m u salt
  failure com d nowMs := h.failure com d m u nowMs
  reset com d lastLoginAt := h.reset com d m u lastLoginAt
  session com d row := h.session com d m u row

theorem wp_handleFailedLogin {Q : Unit → Local (schema env) → World (schema env) → Prop}
    (hspec : LoginSteps spec c dto u m) (h : s.tx = none) (hm : m ∈ s.trace)
    (hu : Mistakes env dto u m) (hQ : ∀ s' w', Q () s' w') :
    wp (discipline base spec) i c (handleFailedLogin env u.id u.failedLoginCount) Q (fun _ _ _ => True)
      s w := by
  rw [handleFailedLogin, wp_bind]
  apply wp_outside_along
  intro nowMs w₁ _
  refine wp_updateUser_alone h rfl (fun com d hcall hsub hw => ?_) fun s' w' _ _ => hQ s' w'
  exact hspec.failure com d nowMs hcall (hsub hm) hu (by simpa [failedLogin] using hw)

variable {Q : Res → Local (schema env) → World (schema env) → Prop}

theorem wp_startSession (hspec : LoginSteps spec c dto u m) (h : s.tx = none) {balance : Option ℤ}
    (hm : m ∈ s.trace) (hu : Authenticates env dto u m)
    (hQ : ∀ row rawToken jti profile balance s' w', Opened env row u.id .player w'.db →
      Q (.loggedIn (issue env row u.id .player "user" rawToken jti) profile balance) s' w') :
    wp (discipline base spec) i c (startSession env u balance ip userAgent) Q (fun _ _ _ => True)
      s w := by
  rw [startSession, wp_bind]
  apply wp_outside_along
  intro lastLoginAt w₁ _
  rw [wp_bind]
  refine wp_updateUser_alone h rfl (fun com d hcall hsub hw => ?_) fun s₂ w₂ ht₂ htrace => ?_
  · exact hspec.reset com d lastLoginAt hcall (hsub hm) hu hw
  rw [wp_bind]
  refine wp_createSession_alone ht₂ (fun com d row hcall hsub hw hcreates => ?_)
    fun row rawToken jti s' w' _ hopened => hQ row rawToken jti _ _ s' w' hopened
  exact hspec.session com d row hcall (hsub (htrace hm)) hu hw hcreates

theorem wp_completeLogin (hspec : LoginSteps spec c dto u m) (h : s.tx = none) {balance : Option ℤ}
    (hm : m ∈ s.trace) (hu : Authenticates env dto u m)
    (hQ : ∀ row rawToken jti profile balance s' w', Opened env row u.id .player w'.db →
      Q (.loggedIn (issue env row u.id .player "user" rawToken jti) profile balance) s' w') :
    wp (discipline base spec) i c (completeLogin env u balance dto.password ip userAgent) Q
      (fun _ _ _ => True) s w := by
  rw [completeLogin, wp_bind, rehash]
  split
  · rw [wp_bind]
    apply wp_outside_along
    intro salt w₁ _
    refine wp_updateUser_alone h rfl (fun com d hcall hsub hw => ?_) fun s' w' ht htrace =>
      wp_startSession hspec ht (htrace hm) hu hQ
    exact hspec.rehash com d salt hcall (hsub hm) hu hw
  · exact wp_startSession hspec h hm hu hQ

theorem wp_login (hspec : ∀ u m, u.status = .active → LoginSteps spec c dto u m) (h : s.tx = none)
    (hQ : ∀ u row rawToken jti profile balance s' w', Opened env row u .player w'.db →
      Q (.loggedIn (issue env row u .player "user" rawToken jti) profile balance) s' w') :
    wp (discipline base spec) i c (login env dto ip userAgent) Q (fun _ _ _ => True) s w := by
  rw [login, wp_bind]
  apply wp_checkRateLimit (fun _ _ _ => trivial)
  intro w₁
  rw [wp_bind]
  apply wp_checkRateLimit (fun _ _ _ => trivial)
  intro w₂
  rw [wp_bind, wp_select]
  refine fun w₃ _ => ⟨trivial, ?_⟩
  have hview : (s.view w₃).db = w₃.db := by simp [Local.view, h]
  rw [hview]
  cases hu : w₃.db.userOf (trim dto.username) with
  | none => exact trivial
  | some u =>
    simp only
    rw [wp_bind]
    apply wp_outside_along
    intro now w₄ _
    rw [wp_bind, wp_require]
    refine ⟨fun _ => ?_, fun _ => trivial⟩
    rw [wp_bind, wp_require]
    refine ⟨fun hactive => ?_, fun _ => trivial⟩
    have ht : (s.exec Tag.findUser none [] w₃).tx = none := by simp [Local.exec, h]
    split
    · rename_i hverify
      exact wp_completeLogin (hspec u _ hactive) ht List.mem_cons_self ⟨rfl, hu, hverify⟩ (hQ u.id)
    · rename_i hverify
      rw [wp_bind]
      exact wp_handleFailedLogin (hspec u _ hactive) ht List.mem_cons_self
        ⟨rfl, hu, Bool.eq_false_iff.mpr hverify⟩ fun _ _ => trivial

theorem wp_adminLogin (h : s.tx = none)
    (hsession : ∀ com d a m row, com.call = c → m ∈ com.trace → AuthenticatesAdmin env dto a m →
      com.writes = [.insertSession row] → Creates env row a.id .admin d → spec com d)
    (htouch : ∀ com d id lastLoginAt, com.call = c → com.writes = [.touchAdmin id lastLoginAt] →
      spec com d)
    (hQ : ∀ admin role row rawToken jti profile s' w', Opened env row admin .admin w'.db →
      Q (.adminLoggedIn (issue env row admin .admin role rawToken jti) profile) s' w') :
    wp (discipline base spec) i c (AdminAuthService.login env dto ip userAgent) Q
      (fun _ _ _ => True) s w := by
  rw [AdminAuthService.login, wp_bind]
  apply wp_checkRateLimit (fun _ _ _ => trivial)
  intro w₁
  rw [wp_bind, wp_select]
  refine fun w₂ _ => ⟨trivial, ?_⟩
  have hview : (s.view w₂).db = w₂.db := by simp [Local.view, h]
  rw [hview]
  cases ha : w₂.db.adminOf (trim dto.username) with
  | none => exact trivial
  | some a =>
    simp only
    rw [wp_bind, wp_require]
    refine ⟨fun hactive => ?_, fun _ => trivial⟩
    rw [wp_bind, wp_require]
    refine ⟨fun hverify => ?_, fun _ => trivial⟩
    rw [wp_bind]
    have ht : (s.exec Tag.findAdmin none [] w₂).tx = none := by simp [Local.exec, h]
    refine wp_createSession_alone ht (fun com d row hcall hsub hw hcreates => ?_)
      fun row rawToken jti s' w' ht' hopened => ?_
    · exact hsession com d a _ row hcall (hsub List.mem_cons_self) ⟨rfl, ha, hactive, hverify⟩ hw hcreates
    rw [wp_bind]
    apply wp_outside_along
    intro lastLoginAt w₃ hal₃
    rw [wp_bind]
    refine wp_updateAdmin_alone ht' (fun com d hcall hw => htouch com d _ _ hcall hw)
      fun s₄ w₄ hgrows => ?_
    have hle : Grows w'.db w₃.db := hal₃.rely.le
    exact hQ _ _ row rawToken jti _ s₄ w₄ (hopened.mono (hle.trans hgrows))

end Login

theorem Commits.push {w : World (schema env)} (hw : w.Ok (discipline base spec))
    (hown : own i w.log = []) {com : Commit (schema env)} (hi : com.proc = i)
    {p : Commit (schema env) → Db env.Hash → Prop} (hp : p com w.db) :
    Commits base i (w.push com) p := by
  have hdb : w.db = replay base w.log := hw.db_eq
  exact ⟨com, w.log, own_push hi hown, List.suffix_refl _, hdb ▸ hp⟩

theorem Commits.mono {w w' : World (schema env)} {p : Commit (schema env) → Db env.Hash → Prop}
    (h : Commits base i w p) (hlog : w.log <:+ w'.log) (hown : own i w'.log = own i w.log) :
    Commits base i w' p := by
  obtain ⟨com, older, hmine, hs, hp⟩ := h
  exact ⟨com, older, hown.trans hmine, hs.trans hlog, hp⟩

structure RefreshSpec (spec : Commit (schema env) → Db env.Hash → Prop) (c : Call) (rawToken : String) :
    Prop where
  rotation : ∀ com d s owner row t, com.call = c → com.writes = rotation env s t row →
    Rotates env rawToken s owner row d → spec com d
  revocation : ∀ com d, com.call = c → Revocations com.writes → spec com d

section Refresh

variable {rawToken ip : String}

def OutcomeOf (rawToken : String) : RefreshOutcome → Commit (schema env) → Db env.Hash → Prop
  | .rotated tokens, com, d => Rotated rawToken tokens com d
  | .reused, com, d => Reused rawToken com d
  | _, _, _ => True

def Ready (base : Db env.Hash) (spec : Commit (schema env) → Db env.Hash → Prop) (i : ℕ) (c : Call)
    (rawToken : String) (start : ℕ) (s : Local (schema env)) (w : World (schema env))
    (outcome : RefreshOutcome) (s' : Local (schema env)) (w' : World (schema env)) : Prop :=
  ∃ ws held, s'.In start ws held ∧ Along (discipline base spec) i s w s' w' ∧
    ∀ w₂, Rely (discipline base spec) i s' w' w₂ →
      spec ⟨i, c, start, w₂.clock, ws, s'.trace⟩ w₂.db ∧
        OutcomeOf rawToken outcome ⟨i, c, start, w₂.clock, ws, s'.trace⟩ w₂.db

def Failed (e : Err) (_ : Local (schema env)) (_ : World (schema env)) : Prop := e ≠ .refreshTokenReused

variable {row : Session} {owner : Uuid} {s₀ : Local (schema env)} {w₀ : World (schema env)}

structure Locked (base : Db env.Hash) (spec : Commit (schema env) → Db env.Hash → Prop) (i start : ℕ)
    (rawToken : String) (row : Session) (s₀ : Local (schema env)) (w₀ : World (schema env))
    (s : Local (schema env)) (w : World (schema env)) : Prop where
  inside : s.In start [] [.row (.session row.id)]
  along : Along (discipline base spec) i s₀ w₀ s w
  mem : row ∈ w.db.sessions
  token : row.refreshTokenHash = env.hashToken rawToken

theorem Locked.rely (h : Locked base spec i start rawToken row s₀ w₀ s w) {w' : World (schema env)}
    (hrely : Rely (discipline base spec) i s w w') :
    Locked base spec i start rawToken row s₀ w₀ s w' := by
  have hagree := hrely.agree (.row (.session row.id)) (h.inside.held _ List.mem_cons_self)
  exact ⟨h.inside, h.along.rely' hrely, hagree row h.mem rfl, h.token⟩

variable (hspec : RefreshSpec spec c rawToken)

include hspec

theorem Ready.idle {held : List (Resource (schema env))} (hin : s.In start [] held)
    (hal : Along (discipline base spec) i s₀ w₀ s w) {outcome : RefreshOutcome}
    (h : ∀ com w', Rely (discipline base spec) i s w w' → OutcomeOf rawToken outcome com w'.db) :
    Ready base spec i c rawToken start s₀ w₀ outcome s w := by
  exact ⟨[], held, hin, hal, fun w' hrely =>
    ⟨hspec.revocation _ _ rfl (fun x hx => by cases hx), h _ w' hrely⟩⟩

theorem wp_rotate (h : Locked base spec i start rawToken row s₀ w₀ s w) {role : String}
    (hlive : row.revokedAt = none) (howner : ownerId row = some owner) :
    wp (discipline base spec) i c (rotate env row owner role ip)
      (Ready base spec i c rawToken start s₀ w₀) Failed s w := by
  rw [rotate, wp_bind]
  apply wp_createSession h.inside (fun e _ _ _ he => he)
  intro s₁ w₁ new raw jti hin₁ hal₁ hcreates
  rw [wp_bind]
  apply wp_outside_along
  intro revokedAt w₂ hal₂
  rw [wp_bind]
  refine hin₁.wp_exec (fun _ _ => fault_ne) (fun w' _ x hx r hr => ?_) fun s₃ w₃ v hv hin₃ hal₃ _ => ?_
  · obtain rfl := List.mem_singleton.mp hx
    obtain rfl : r = .row (.session row.id) := by simpa [discipline, footprint] using hr
    exact List.mem_cons_self
  have hal := hal₁.trans (hal₂.trans hal₃)
  refine ⟨_, _, hin₃, h.along.trans hal, fun w₄ hrely => ?_⟩
  have hrotates : Rotates env rawToken row owner new w₄.db := by
    refine ⟨?_, h.token, hlive, howner, hcreates w₄ ((hal₂.trans hal₃).rely' hrely).rely⟩
    exact (h.rely (hal.rely' hrely).rely).mem
  exact ⟨hspec.rotation _ _ _ _ _ _ rfl rfl hrotates,
    ⟨row, owner, new, revokedAt, role, jti, hrotates, rfl, rfl⟩⟩

theorem wp_rotateOwned (h : Locked base spec i start rawToken row s₀ w₀ s w)
    (hlive : row.revokedAt = none) (howner : ownerId row = some owner) :
    wp (discipline base spec) i c (rotateOwned env row owner ip)
      (Ready base spec i c rawToken start s₀ w₀) Failed s w := by
  rw [rotateOwned]
  split
  · rw [wp_bind]
    refine h.inside.wp_exec (fun _ _ => fault_ne) (fun _ _ _ hx => by cases hx)
      fun s₁ w₁ v hv hin₁ hal₁ _ => ?_
    have h₁ : Locked base spec i start rawToken row s₀ w₀ s₁ w₁ := by
      refine ⟨hin₁, h.along.trans hal₁, ?_, h.token⟩
      exact (h.rely hal₁.rely).mem
    split
    · exact .idle hspec h₁.inside h₁.along fun _ _ _ => trivial
    · exact wp_rotate hspec h₁ hlive howner
  · exact wp_rotate hspec h hlive howner

theorem wp_revokeReused (h : Locked base spec i start rawToken row s₀ w₀ s w)
    (hrevoked : row.revokedAt.isSome = true) :
    wp (discipline base spec) i c (revokeReused env row) (Ready base spec i c rawToken start s₀ w₀)
      Failed s w := by
  rw [revokeReused]
  split
  · rename_i hnone
    refine .idle hspec h.inside h.along fun com w' hrely =>
      ⟨row, (h.rely hrely).mem, h.token, hrevoked, ?_⟩
    intro owner howner
    cases hnone.symm.trans howner
  · rename_i owner howner
    rw [wp_bind, revokeAllSessions, wp_bind]
    apply wp_outside_along
    intro revokedAt w₁ hal₁
    refine wp_updateSessions h.inside (fun _ hx => by cases hx) (fun e _ _ _ he => he)
      fun s₂ w₂ m ws hin₂ hal₂ hrevoke hsweep => ?_
    have hal := hal₁.trans hal₂
    refine ⟨ws, _, hin₂, h.along.trans hal,
      fun w₃ hrely => ⟨hspec.revocation _ _ rfl hrevoke, ?_⟩⟩
    refine ⟨row, (h.rely (hal.rely' hrely).rely).mem, h.token, hrevoked, fun o ho => ?_⟩
    obtain rfl : owner = o := Option.some.inj (howner.symm.trans ho)
    exact ⟨hrevoke, m, hsweep w₃ hrely⟩

theorem wp_refreshTransaction (hin : s.In start [] [])
    (hal : Along (discipline base spec) i s₀ w₀ s w) :
    wp (discipline base spec) i c (refreshTransaction env rawToken ip)
      (Ready base spec i c rawToken start s₀ w₀) Failed s w := by
  rw [refreshTransaction, wp_bind]
  apply hin.wp_exec (fun _ _ => fault_ne) (fun _ _ _ hx => by cases hx)
  intro s₁ w₁ v hv hin₁ hal₁ _
  subst hv
  have halong := hal.trans hal₁
  cases hrow : Db.sessionOf (applyAll (S := schema env) [] w₁.db) (env.hashToken rawToken) with
  | none =>
    simp only
    exact .idle hspec hin₁ halong fun _ _ _ => trivial
  | some row =>
    simp only [hrow] at hin₁ ⊢
    rw [wp_bind]
    apply wp_outside_along
    intro now w₂ hal₂
    have h₁ : Locked base spec i start rawToken row s₀ w₀ s₁ w₁ :=
      ⟨hin₁, halong, List.mem_of_find?_eq_some hrow, by simpa using List.find?_some hrow⟩
    have h₂ := h₁.rely hal₂.rely
    split
    · exact .idle hspec h₂.inside h₂.along fun _ _ _ => trivial
    split
    · rename_i hrevoked
      exact wp_revokeReused hspec h₂ hrevoked
    · rename_i hlive
      split
      · exact .idle hspec h₂.inside h₂.along fun _ _ _ => trivial
      · rename_i owner howner
        have hnone : row.revokedAt = none := by simpa using hlive
        exact wp_rotateOwned hspec h₂ hnone howner

theorem wp_refresh (h : s.tx = none) (hown : own i w.log = []) :
    wp (discipline base spec) i c (refresh env rawToken ip)
      (fun a _ w => RefreshDone base i w rawToken (.ok a) ∧ ∃ tokens, a = .refreshed tokens)
      (fun e _ w => RefreshDone base i w rawToken (.error e)) s w := by
  have herror (e : Err) (w' : World (schema env)) (he : e ≠ .refreshTokenReused) :
      RefreshDone base i w' rawToken (.error e) := by
    cases e with
    | refreshTokenReused => exact absurd rfl he
    | _ => trivial
  rw [refresh, wp_bind]
  refine wp_transaction_out h (fun s₁ w₁ hin hal => ?_) fun s' w' _ _ _ => herror _ w' fault_ne
  refine wp_mono _ (wp_refreshTransaction hspec hin hal) ?_ fun e s' w' he w₂ _ => herror e w₂ he
  rintro outcome s₂ w₂ ⟨ws, held, hin₂, hal₂, hready⟩
  refine ⟨ws, held, hin₂, hal₂, fun w₃ hrely => ⟨(hready w₃ hrely).1, fun hlog => ?_⟩⟩
  have hmine : own i w₃.log = [] := hlog.trans hown
  have hcommits := Commits.push hrely.ok hmine rfl (hready w₃ hrely).2
  rw [wp_check]
  refine ⟨fun a ha => ?_, fun e he => ?_⟩
  · cases outcome with
    | rotated tokens => cases ha; exact ⟨hcommits, tokens, rfl⟩
    | _ => cases ha
  · cases outcome with
    | reused => cases he; exact hcommits
    | rotated tokens => cases he
    | _ => cases he; trivial

end Refresh

section Revoke

theorem wp_logout (hspec : ∀ com d, com.call = c → Revocations com.writes → spec com d)
    (h : s.tx = none) {sessionId : Uuid} {owner : Option Uuid} {isAdmin : Bool} :
    wp (discipline base spec) i c (logout env sessionId owner isAdmin) (fun a _ _ => a = .done)
      (fun _ _ _ => True) s w := by
  rw [logout, wp_bind]
  apply wp_outside_along
  intro revokedAt w₁ _
  rw [wp_bind]
  exact wp_updateSessions_alone h (fun _ _ _ _ _ => trivial)
    fun com m s' w' _ _ _ hcall hrevoke _ => ⟨hspec com _ hcall hrevoke, rfl⟩

theorem wp_logoutAll (hspec : ∀ com d, com.call = c → Revocations com.writes → spec com d)
    (h : s.tx = none) (hown : own i w.log = []) {userId : Uuid} :
    wp (discipline base spec) i c (logoutAll env userId)
      (fun a _ w => Done base i w (.logoutAll userId) (.ok a) ∧ a = .done) (fun _ _ _ => True) s w := by
  rw [logoutAll, wp_bind]
  apply wp_outside_along
  intro revokedAt w₁ hal
  rw [wp_bind]
  refine wp_updateSessions_alone h (fun _ _ _ _ _ => trivial)
    fun com m s' w' hok hlog hi hcall hrevoke hsweep => ⟨hspec com _ hcall hrevoke, ?_, rfl⟩
  have hmine := (hlog.trans hal.own).trans hown
  exact Commits.push (p := Revokes (ownedLive userId false)) hok hmine hi ⟨hrevoke, m, hsweep⟩

theorem wp_changePassword {userId : Uuid} {dto : ChangePasswordDto}
    (hspec : ∀ com d salt ws m, com.call = c → (d.userById userId).isSome = true →
      com.writes = .setPasswordHash userId (env.hash dto.newPassword salt) :: ws → Revocations ws →
      Sweeps (ownedLive userId false) m com.writes com.trace d → spec com d)
    (h : s.tx = none) :
    wp (discipline base spec) i c (UsersService.changePassword env userId dto) (fun a _ _ => a = .done)
      (fun _ _ _ => True) s w := by
  rw [UsersService.changePassword, wp_bind]
  apply wp_select_out h (fun _ _ => trivial)
  intro s₁ w₁ ht₁ _
  split
  · trivial
  rw [wp_bind, wp_require]
  refine ⟨fun _ => ?_, fun _ => trivial⟩
  rw [wp_bind]
  apply wp_outside_along
  intro salt w₂ _
  rw [wp_bind]
  apply wp_outside_along
  intro revokedAt w₃ _
  rw [wp_bind]
  refine wp_transaction_out ht₁ (fun s₄ w₄ hin hal => ?_) fun _ _ _ _ _ => trivial
  rw [wp_bind]
  apply wp_updateUser hin rfl (fun _ _ _ _ _ _ _ => trivial)
  intro s₅ w₅ hin₅ hal₅ huser
  have hquiet : ∀ x ∈ ([] : List (Write env.Hash)) ++
      [.setPasswordHash userId (env.hash dto.newPassword salt)], Quiet x := by
    intro x hx
    obtain rfl := List.mem_singleton.mp hx
    exact ⟨fun _ => rfl, rfl⟩
  refine wp_updateSessions hin₅ hquiet (fun _ _ _ _ _ _ _ => trivial)
    fun s₆ w₆ m ws hin₆ hal₆ hrevoke hsweep => ?_
  exact ⟨_, _, hin₆, hal.trans (hal₅.trans hal₆), fun w₇ hrely =>
    ⟨hspec _ _ salt ws m rfl (huser w₇ (hal₆.rely' hrely).rely) rfl hrevoke (hsweep w₇ hrely),
      fun _ => rfl⟩⟩

end Revoke

theorem does_login {dto : LoginDto} {ip : String} {userAgent : Option String} :
    LoginSpec (Does : Commit (schema env) → Db env.Hash → Prop) (.login dto ip userAgent) dto where
  rehash _ _ _ _ _ hcall hm hu hw := .rehash hcall hm hu hw
  failure _ _ _ _ _ hcall _ _ hw := .account (by rw [hcall]; rfl) hw trivial
  reset _ _ _ _ _ hcall _ _ hw := .account (by rw [hcall]; rfl) hw trivial
  session _ _ _ _ _ hcall hm hu hw hcreates := .login hcall hm hu hw hcreates

theorem does_refresh {rawToken : String} (hc : c.presents = some rawToken) :
    RefreshSpec (Does : Commit (schema env) → Db env.Hash → Prop) c rawToken where
  rotation _ _ _ _ _ _ hcall hw h := .rotation (hcall ▸ hc) hw h
  revocation _ _ hcall hw := .revocation (hcall ▸ Call.not_change hc) hw

theorem verified (base : Db env.Hash) (allowed : Call → Prop) :
    Verified (protocol base) (body env) allowed (done base) := by
  intro i call w _ _ hown
  cases call with
  | login dto ip userAgent =>
    exact wp_login (fun u m _ => does_login.steps u m) rfl fun _ _ _ _ _ _ _ _ _ => trivial
  | adminLogin dto ip userAgent =>
    exact wp_adminLogin rfl (fun _ _ _ _ _ hcall _ _ hw h => .adminLogin hcall hw h)
      (fun _ _ _ _ hcall hw => .account (hcall ▸ rfl) hw trivial) fun _ _ _ _ _ _ _ _ _ => trivial
  | refresh rawToken ip =>
    exact wp_mono _ (wp_refresh (does_refresh rfl) rfl hown) (fun _ _ _ h => h.1) fun _ _ _ h => h
  | adminRefresh rawToken ip =>
    exact wp_mono _ (wp_refresh (does_refresh rfl) rfl hown) (fun _ _ _ h => h.1) fun _ _ _ h => h
  | logout sessionId owner isAdmin =>
    exact wp_mono _ (wp_logout (fun _ _ hcall hw => .revocation (hcall ▸ rfl) hw) rfl)
      (fun _ _ _ _ => trivial) fun _ _ _ h => h
  | logoutAll userId =>
    exact wp_mono _ (wp_logoutAll (fun _ _ hcall hw => .revocation (hcall ▸ rfl) hw) rfl hown)
      (fun _ _ _ h => h.1) fun _ _ _ h => h
  | changePassword userId dto =>
    exact wp_mono _ (wp_changePassword (fun _ _ _ _ _ hcall hu hw hws h => .change hcall hu hw hws h) rfl)
      (fun _ _ _ _ => trivial) fun _ _ _ h => h

abbrev Run (K : Policy (schema env)) (base : Db env.Hash) (s : State (schema env)) : Prop :=
  Transactions.Run (body env) Db.Known K base s

namespace Run

variable {K : Policy (schema env)} {s : State (schema env)}

theorem invariant (h : Run K base s) : Invariant (protocol base) (done base) s :=
  Transactions.Run.invariant (verified base K.spawn) h

theorem chronicle (h : Run K base s) : Chronicle Does base s.world.log := h.invariant.ok.chronicle

theorem db_eq (h : Run K base s) : s.world.db = replay base s.world.log := h.obeys.db_eq

theorem done (h : Run K base s) {i : ℕ} {p : Proc (schema env)} (hp : s.procs i = some p)
    {r : Except Err Res} (hr : p.prog.Ends r) : Done base i s.world p.call r := by
  obtain ⟨w, hrely, hdone⟩ := h.invariant.outcome hp hr
  have hkeep {q : Commit (schema env) → Db env.Hash → Prop} (hq : Commits base i w q) :
      Commits base i s.world q := hq.mono hrely.log hrely.own
  have hrefresh (rawToken : String) (hq : RefreshDone base i w rawToken r) :
      RefreshDone base i s.world rawToken r := by
    cases r with
    | ok a =>
      cases a with
      | refreshed tokens => exact hkeep hq
      | _ => trivial
    | error e =>
      cases e with
      | refreshTokenReused => exact hkeep hq
      | _ => trivial
  obtain ⟨call, prog, loc⟩ := p
  cases call with
  | refresh rawToken ip => exact hrefresh rawToken hdone
  | adminRefresh rawToken ip => exact hrefresh rawToken hdone
  | logoutAll userId =>
    cases r with
    | ok a =>
      have hrevokes : Commits base i w (Revokes (ownedLive userId false)) := hdone
      exact hkeep hrevokes
    | error e => trivial
  | _ => trivial

end Run

end JitoGame.Auth
