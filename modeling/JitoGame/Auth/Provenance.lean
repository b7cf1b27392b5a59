import JitoGame.Auth.Rotation

namespace JitoGame.Auth

open Transactions AuthService

section Origin

variable {env : Env} {base d d' : Db env.Hash} {c : Commit (schema env)}
variable {log : List (Commit (schema env))} {l l' : List Session} {r x : Session}

inductive Vouches (c : Commit (schema env)) (r : Session) : Prop
  | player {dto : LoginDto} {ip : String} {userAgent : Option String} {u : User env.Hash}
      {m : Mark (schema env)} (hc : c.call = .login dto ip userAgent) (hm : m ∈ c.trace)
      (hu : Authenticates env dto u m) (hactive : u.status = .active) (huser : r.userId = some u.id)
      (hadmin : r.adminId = none)
  | admin {dto : LoginDto} {ip : String} {userAgent : Option String} {a : AdminUser env.Hash}
      {m : Mark (schema env)} (hc : c.call = .adminLogin dto ip userAgent) (hm : m ∈ c.trace)
      (ha : AuthenticatesAdmin env dto a m) (huser : r.userId = none) (hadmin : r.adminId = some a.id)

def Original (base : Db env.Hash) (log : List (Commit (schema env))) (r : Session) : Prop :=
  base.Known r.id ∨
    ∃ c ∈ log, Vouches c r ∧ ∃ row, Write.insertSession row ∈ c.writes ∧ row.id = r.id

structure Descends (l : List Session) (r x : Session) : Prop where
  mem : r ∈ l
  chain : Relation.ReflTransGen (Link l) r.id x.id
  userId : r.userId = x.userId
  adminId : r.adminId = x.adminId

def Traced (base : Db env.Hash) (log : List (Commit (schema env))) (l : List Session) (x : Session) :
    Prop := ∃ r, Descends l r x ∧ Original base log r

theorem Vouches.same (h : Vouches c r) (hsame : r.Same x) : Vouches c x := by
  cases h with
  | player hc hm hu hactive huser hadmin =>
    exact .player hc hm hu hactive (hsame.userId.trans huser) (hsame.adminId.trans hadmin)
  | admin hc hm ha huser hadmin =>
    exact .admin hc hm ha (hsame.userId.trans huser) (hsame.adminId.trans hadmin)

theorem Original.same (h : Original base log r) (hsame : r.Same x) : Original base log x := by
  rcases h with hknown | ⟨c, hc, hv, row, hrow, hid⟩
  · exact .inl (hsame.id ▸ hknown)
  · exact .inr ⟨c, hc, hv.same hsame, row, hrow, hid.trans hsame.id.symm⟩

theorem Original.cons (h : Original base log r) (c : Commit (schema env)) : Original base (c :: log) r := by
  rcases h with hknown | ⟨c', hc', hrest⟩
  · exact .inl hknown
  · exact .inr ⟨c', List.mem_cons_of_mem _ hc', hrest⟩

theorem Traced.cons (h : Traced base log l x) (c : Commit (schema env)) : Traced base (c :: log) l x := by
  obtain ⟨r, hr, horiginal⟩ := h
  exact ⟨r, hr, horiginal.cons c⟩

theorem Traced.root (hx : x ∈ l) (h : Original base log x) : Traced base log l x :=
  ⟨x, ⟨hx, .refl, rfl, rfl⟩, h⟩

theorem Traced.map {f : Session → Session} (h : Traced base log l x) (hmem : ∀ y ∈ l, f y ∈ l')
    (hsame : ∀ y : Session, y.Same (f y)) (hlink : ∀ a b, Link l a b → Link l' a b) :
    Traced base log l' (f x) := by
  obtain ⟨r, hr, horiginal⟩ := h
  refine ⟨f r, ⟨hmem r hr.mem, ?_, ?_, ?_⟩, horiginal.same (hsame r)⟩
  · rw [(hsame r).id, (hsame x).id]
    exact Relation.ReflTransGen.mono hlink _ _ hr.chain
  · rw [(hsame r).userId, (hsame x).userId, hr.userId]
  · rw [(hsame r).adminId, (hsame x).adminId, hr.adminId]

theorem Traced.next (h : Traced base log l r) (hlink : Link l r.id x.id) (huser : x.userId = r.userId)
    (hadmin : x.adminId = r.adminId) : Traced base log l x := by
  obtain ⟨r₀, hr, horiginal⟩ := h
  exact ⟨r₀, ⟨hr.mem, hr.chain.tail hlink, hr.userId.trans huser.symm, hr.adminId.trans hadmin.symm⟩,
    horiginal⟩

def Vetted (c : Commit (schema env)) (_ : Db env.Hash) : Prop :=
  c.call.presents = none → ∀ row, Write.insertSession row ∈ c.writes → Vouches c row

theorem link_append (row : Session) (a b : Uuid) (h : Link l a b) : Link (l ++ [row]) a b := by
  obtain ⟨s, hs, hrest⟩ := h
  exact ⟨s, List.mem_append_left _ hs, hrest⟩

theorem link_revoke {id a b : Uuid} {t : ℕ} (h : Link l a b) :
    Link (l.map (Write.revoke id t : Write env.Hash).session) a b := by
  obtain ⟨s, hs, rfl, hnext⟩ := h
  refine ⟨_, List.mem_map_of_mem hs, ((Write.revoke id t : Write env.Hash).same_session s).id, ?_⟩
  rw [← hnext]
  simp only [Write.session]
  split
  · rfl
  · rfl

theorem Revocations.traced {ws : List (Write env.Hash)} (hws : Revocations ws)
    (h : ∀ x ∈ d.sessions, Traced base log d.sessions x) :
    ∀ x ∈ Db.sessions (applyAll (S := schema env) ws d),
      Traced base log (Db.sessions (applyAll (S := schema env) ws d)) x := by
  induction ws generalizing d with
  | nil => exact h
  | cons y ws ih =>
    obtain ⟨id, t, rfl⟩ := hws y List.mem_cons_self
    refine ih (fun z hz => hws z (List.mem_cons_of_mem _ hz)) fun x hx => ?_
    have hmap : ((Write.revoke id t : Write env.Hash).apply d).sessions =
        d.sessions.map (Write.revoke id t : Write env.Hash).session := by
      simp [Write.apply, Write.newSessions]
    rw [hmap] at hx ⊢
    obtain ⟨x₀, hx₀, rfl⟩ := List.mem_map.mp hx
    exact (h x₀ hx₀).map (fun y hy => List.mem_map_of_mem hy) (Write.same_session _) fun _ _ => link_revoke

theorem Creates.traced {row : Session} {owner : Uuid} {audience : Audience}
    (h : ∀ x ∈ d.sessions, Traced base log d.sessions x)
    (hcreates : Creates env row owner audience d) (hw : c.writes = [.insertSession row])
    (hv : Vouches c row) : ∀ x ∈ d.sessions ++ [row], Traced base (c :: log) (d.sessions ++ [row]) x := by
  intro x hx
  rcases List.mem_append.mp hx with hx | hx
  · exact ((h x hx).cons c).map (f := id) (fun y hy => List.mem_append_left _ hy) .refl (link_append row)
  · obtain rfl := List.mem_singleton.mp hx
    refine .root (List.mem_append_right _ hx) (.inr ⟨c, List.mem_cons_self, hv, x, ?_, rfl⟩)
    rw [hw]
    exact List.mem_singleton_self _

theorem Rotates.traced {rawToken : String} {s row : Session} {owner : Uuid} {t : ℕ}
    (hrotates : Rotates env rawToken s owner row d) (hd : Sound d.sessions)
    (h : ∀ x ∈ d.sessions, Traced base log d.sessions x) :
    ∀ x ∈ Db.sessions (applyAll (S := schema env) (rotation env s t row) d),
      Traced base log (Db.sessions (applyAll (S := schema env) (rotation env s t row) d)) x := by
  rw [sessions_rotation]
  have hlinks (a b : Uuid) : Link ((d.sessions ++ [row]).map
      (Write.replace s.id t row.id : Write env.Hash).session) a b ↔
        Link (d.sessions ++ [row]) a b ∨ (a = s.id ∧ b = row.id) :=
    (hrotates.creates.sound hd).link_replace (List.mem_append_left [row] hrotates.mem) hrotates.live row.id a b
  have hold (x : Session) (hx : x ∈ d.sessions) :
      Traced base log ((d.sessions ++ [row]).map (Write.replace s.id t row.id : Write env.Hash).session)
        ((Write.replace s.id t row.id : Write env.Hash).session x) := by
    refine (h x hx).map (fun y hy => List.mem_map_of_mem (List.mem_append_left _ hy))
      (Write.same_session _) fun a b hab => ?_
    exact (hlinks a b).mpr (.inl (link_append row a b hab))
  intro x hx
  obtain ⟨x₀, hx₀, rfl⟩ := List.mem_map.mp hx
  rcases List.mem_append.mp hx₀ with hx₀ | hx₀
  · exact hold x₀ hx₀
  · obtain rfl := List.mem_singleton.mp hx₀
    have hsame := (Write.replace s.id t x₀.id : Write env.Hash).same_session
    obtain ⟨huser, hadmin⟩ := hrotates.same_owner (hd.owner s hrotates.mem)
    refine (hold s hrotates.mem).next ((hlinks _ _).mpr (.inr ⟨(hsame s).id, (hsame x₀).id⟩)) ?_ ?_
    · rw [(hsame x₀).userId, (hsame s).userId, huser]
    · rw [(hsame x₀).adminId, (hsame s).adminId, hadmin]

theorem Does.traced (hc : Does c d) (hv : Vetted c d) (hd : Sound d.sessions)
    (h : ∀ x ∈ d.sessions, Traced base log d.sessions x) :
    ∀ x ∈ Db.sessions (applyAll (S := schema env) c.writes d),
      Traced base (c :: log) (Db.sessions (applyAll (S := schema env) c.writes d)) x := by
  have hkept (heq : Db.sessions (applyAll (S := schema env) c.writes d) = d.sessions) :
      ∀ x ∈ Db.sessions (applyAll (S := schema env) c.writes d),
        Traced base (c :: log) (Db.sessions (applyAll (S := schema env) c.writes d)) x := by
    rw [heq]
    exact fun x hx => (h x hx).cons c
  have hpassword (id : Uuid) (hash : env.Hash) :
      ((Write.setPasswordHash id hash).apply d).sessions = d.sessions :=
    Quiet.sessions ⟨fun _ => rfl, rfl⟩ d
  cases hc with
  | rehash _ _ _ hw =>
    apply hkept
    rw [hw, applyAll_cons, applyAll_nil, hpassword]
  | account _ hw hx =>
    apply hkept
    rw [hw, applyAll_cons, applyAll_nil, hx.quiet.sessions]
  | @login dto ip userAgent u m row hcall _ _ hw hcreates =>
    have hvouches := hv (hcall ▸ rfl) row (hw ▸ List.mem_singleton_self _)
    have htraced := hcreates.traced h hw hvouches
    rw [hw, applyAll_cons, applyAll_nil, sessions_insert]
    exact htraced
  | @adminLogin dto ip userAgent admin row hcall hw hcreates =>
    have hvouches := hv (hcall ▸ rfl) row (hw ▸ List.mem_singleton_self _)
    have htraced := hcreates.traced h hw hvouches
    rw [hw, applyAll_cons, applyAll_nil, sessions_insert]
    exact htraced
  | rotation _ hw hrotates =>
    rw [hw]
    exact fun x hx => (hrotates.traced hd h x hx).cons c
  | revocation _ hw => exact fun x hx => (hw.traced h x hx).cons c
  | @change userId dto salt ws m _ _ hw hws _ =>
    rw [hw, applyAll_cons]
    have hsessions := hpassword userId (env.hash dto.newPassword salt)
    refine fun x hx => (Revocations.traced hws ?_ x hx).cons c
    rw [hsessions]
    exact h

end Origin

section Tokens

variable {env : Env} {base d d' : Db env.Hash} {c : Commit (schema env)}
variable {r x : Session} {owner : Uuid} {audience : Audience} {token : AccessToken}

def Res.tokens : Res → Option AuthTokens
  | .loggedIn tokens _ _ | .adminLoggedIn tokens _ | .refreshed tokens => some tokens
  | .done => none

def Signs (d : Db env.Hash) (token : AccessToken) : Prop :=
  ∃ x ∈ d.sessions, x.id = token.sid ∧ token.IssuedTo x

theorem AccessToken.IssuedTo.same (h : token.IssuedTo r) (hsame : r.Same x) : token.IssuedTo x := by
  unfold AccessToken.IssuedTo at h ⊢
  rw [hsame.userId, hsame.adminId]
  exact h

theorem Creates.issuedTo (h : Creates env r owner audience d) (role rawToken : String) (jti : ℕ) :
    (issue env r owner audience role rawToken jti).accessToken.IssuedTo r := by
  have huser := h.userId
  have hadmin := h.adminId
  cases audience with
  | player => exact ⟨huser, hadmin⟩
  | admin => exact ⟨hadmin, huser⟩

theorem Opened.signs (h : Opened env r owner audience d) (role rawToken : String) (jti : ℕ) :
    Signs d (issue env r owner audience role rawToken jti).accessToken := by
  obtain ⟨d₀, hcreates⟩ := h.created
  obtain ⟨x, hx, hsame⟩ := h.stored
  exact ⟨x, hx, hsame.id, (hcreates.issuedTo role rawToken jti).same hsame⟩

theorem Signs.mono (h : Signs d token) (hle : Grows d d') : Signs d' token := by
  obtain ⟨x, hx, hid, hissued⟩ := h
  obtain ⟨x', hx', hsame⟩ := hle x hx
  exact ⟨x', hx', hsame.id.trans hid, hissued.same hsame⟩

def issues : Outcome (schema env) := fun _ call r _ w => ∀ a tokens, r = .ok a → a.tokens = some tokens →
  Signs w.db tokens.accessToken ∨ call.presents.isSome = true ∧ a = .refreshed tokens

theorem Vetted.quiet (h : ∀ row, Write.insertSession row ∉ c.writes) : Vetted c d :=
  fun _ row hrow => absurd hrow (h row)

theorem Vetted.revocations (h : Revocations c.writes) : Vetted c d := by
  apply Vetted.quiet
  intro row hrow
  obtain ⟨id, t, heq⟩ := h _ hrow
  cases heq

theorem vetted_login {dto : LoginDto} {ip : String} {userAgent : Option String} {u : User env.Hash}
    {m : Mark (schema env)} (hactive : u.status = .active) :
    LoginSteps (Vetted : Commit (schema env) → Db env.Hash → Prop) (.login dto ip userAgent) dto u m where
  rehash _ _ _ _ _ _ hw := .quiet (by simp [hw])
  failure _ _ _ _ _ _ hw := .quiet (by simp [hw, failedLogin])
  reset _ _ _ _ _ _ hw := .quiet (by simp [hw])
  session com d row hcall hm hu hw hcreates := by
    intro _ row' hrow'
    rw [hw] at hrow'
    cases List.mem_singleton.mp hrow'
    exact .player hcall hm hu hactive hcreates.userId hcreates.adminId

theorem vetted_refresh {call : Call} {rawToken : String} (hc : call.presents = some rawToken) :
    RefreshSpec (Vetted : Commit (schema env) → Db env.Hash → Prop) call rawToken where
  rotation _ _ _ _ _ _ hcall _ _ := by
    intro hnone
    rw [hcall, hc] at hnone
    cases hnone
  revocation _ _ _ hw := .revocations hw

theorem vetted (base : Db env.Hash) (allowed : Call → Prop) :
    Verified (discipline base Vetted) (body env) allowed issues := by
  intro i call w _ _ hown
  have hrefresh {rawToken ip : String} {call : Call} (hc : call.presents = some rawToken) :
      wp (discipline base Vetted) i call (refresh env rawToken ip)
        (fun a s w => issues i call (.ok a) s w) (fun e s w => issues i call (.error e) s w) .idle w := by
    refine wp_mono _ (wp_refresh (vetted_refresh hc) rfl hown) ?_ fun _ _ _ _ _ _ he => by cases he
    rintro a s w ⟨-, tokens, rfl⟩ a' tokens' ha ht
    cases ha
    cases ht
    exact .inr ⟨by rw [hc]; rfl, rfl⟩
  have hdone {call : Call} {p : Prog (schema env) Res} {E : Err → Local (schema env) → World (schema env) → Prop}
      (h : wp (discipline base Vetted) i call p (fun a _ _ => a = .done) E .idle w) :
      wp (discipline base Vetted) i call p (fun a s w => issues i call (.ok a) s w)
        (fun e s w => issues i call (.error e) s w) .idle w := by
    refine wp_mono _ h ?_ fun _ _ _ _ _ _ he => by cases he
    rintro a s w rfl a' tokens ha ht
    cases ha
    cases ht
  cases call with
  | login dto ip userAgent =>
    refine wp_mono _ (wp_login (fun u m hactive => vetted_login hactive) rfl ?_) (fun _ _ _ h => h)
      fun _ _ _ _ _ _ he => by cases he
    intro u row rawToken jti profile balance s' w' hopened a tokens ha ht
    cases ha
    cases ht
    exact .inl (hopened.signs _ _ _)
  | adminLogin dto ip userAgent =>
    refine wp_mono _ (wp_adminLogin rfl (fun com d a m row hcall hm ha hw hcreates => ?_)
      (fun _ _ _ _ _ hw => .quiet (by simp [hw])) ?_) (fun _ _ _ h => h)
      fun _ _ _ _ _ _ he => by cases he
    · intro _ row' hrow'
      rw [hw] at hrow'
      cases List.mem_singleton.mp hrow'
      exact .admin hcall hm ha hcreates.userId hcreates.adminId
    · intro admin role row rawToken jti profile s' w' hopened a tokens ha ht
      cases ha
      cases ht
      exact .inl (hopened.signs _ _ _)
  | refresh rawToken ip => exact hrefresh rfl
  | adminRefresh rawToken ip => exact hrefresh rfl
  | logout sessionId owner isAdmin => exact hdone (wp_logout (fun _ _ _ hw => .revocations hw) rfl)
  | logoutAll userId =>
    exact hdone (wp_mono _ (wp_logoutAll (fun _ _ _ hw => .revocations hw) rfl hown) (fun _ _ _ h => h.2)
      fun _ _ _ h => h)
  | changePassword userId dto =>
    refine hdone (wp_changePassword (fun com d salt ws m _ _ hw hws _ => .quiet fun row hrow => ?_) rfl)
    rw [hw] at hrow
    rcases List.mem_cons.mp hrow with heq | hrow
    · cases heq
    · obtain ⟨id, t, heq⟩ := hws _ hrow
      cases heq

end Tokens

section Run

variable {env : Env} {K : Policy (schema env)} {base : Db env.Hash} {s : State (schema env)}

theorem Run.vetted (h : Run K base s) : Invariant (discipline base Vetted) issues s :=
  Transactions.Run.invariant (P := discipline base Vetted) (Auth.vetted base K.spawn) h

theorem Run.signs (h : Run K base s) {i : ℕ} {p : Proc (schema env)} (hp : s.procs i = some p) {a : Res}
    {tokens : AuthTokens} (hr : p.prog.Ends (.ok a)) (ha : a.tokens = some tokens) :
    Signs s.world.db tokens.accessToken := by
  obtain ⟨w, hrely, hissues⟩ := h.vetted.outcome hp hr
  rcases hissues a tokens rfl ha with hsigns | ⟨hpresents, rfl⟩
  · exact hsigns.mono hrely.le
  · obtain ⟨rawToken, hcall⟩ := Option.isSome_iff_exists.mp hpresents
    obtain ⟨c, older, -, hs, x, owner, row, t, role, jti, hrotates, hw, htokens⟩ := h.rotated hp hcall hr
    have hrow : row ∈ (Write.apply (.insertSession row) (replay base older)).sessions :=
      mem_sessions_apply.mpr (.inr (List.mem_singleton_self row))
    have hgrows : Grows (Write.apply (.insertSession row) (replay base older)) s.world.db := by
      rw [h.db_eq]
      refine Grows.trans ?_ (grows_replay base hs)
      rw [replay, hw]
      exact (protocol base).le_applyAll [.replace x.id t row.id] _
    rw [htokens]
    exact (Opened.mono ⟨⟨_, hrotates.creates⟩, row, hrow, .refl row⟩ hgrows).signs _ _ _

theorem traced_replay {base : Db env.Hash} {log : List (Commit (schema env))} (h₀ : Sound base.sessions)
    (hdoes : Chronicle Does base log) (hvetted : Chronicle Vetted base log) :
    ∀ x ∈ Db.sessions (replay base log), Traced base log (Db.sessions (replay base log)) x := by
  induction log with
  | nil => exact fun x hx => .root hx (.inl ⟨x, hx, rfl⟩)
  | cons c log ih => exact hdoes.1.traced hvetted.1 (sound_replay h₀ hdoes.2) (ih hdoes.2 hvetted.2)

/-- Every token that a call has been answered with is that of a session that goes back, by rotations
within one account, to a login with the password of that account. -/
theorem provenance_of_run (h : Run K base s) (h₀ : Sound base.sessions) :
    (∀ x ∈ s.world.db.sessions, Traced base s.world.log s.world.db.sessions x) ∧
    ∀ i p a tokens, s.procs i = some p → p.prog.Ends (.ok a) → a.tokens = some tokens →
      Signs s.world.db tokens.accessToken := by
  refine ⟨?_, fun i p a tokens hp hr ha => h.signs hp hr ha⟩
  rw [h.db_eq]
  exact traced_replay h₀ h.chronicle h.vetted.ok.chronicle

end Run

def freshDb : Db sampleEnv.Hash := ⟨[alice true], [], [], []⟩

theorem known_freshDb : ∀ x, freshDb.Known x → x ∈ ([] : List Uuid) := by
  rintro x ⟨s, hs, -⟩
  cases hs

def strayRun : List (Label sampleSchema) :=
  [.spawn 0 (.login ⟨"alice", "secret"⟩ "ip" none), .input 0 1, .input 0 1, .run 0, .input 0 0, .input 0 0,
    .run 0, .run 0, .run 0, .input 0 7, .input 0 0, .run 0, .run 0, .mint 0 (.ofNat 2), .run 0, .run 0,
    .input 0 9, .spawn 1 (.adminRefresh (randomToken 7) "ip"), .run 1, .run 1, .input 1 0] ++
    rotateRun 1 3 8 ++ [.run 1]

def Res.access (a : Res) : Option (Uuid × Audience × Uuid) :=
  a.tokens.map fun tokens => (tokens.accessToken.sub, tokens.accessToken.aud, tokens.accessToken.sid)

theorem stray_answer : ∃ s p a,
    (Policy.calls fun _ => True).steps (body sampleEnv) (initial freshDb []) strayRun = some s ∧
      s.procs 1 = some p ∧ p.prog.Ends (.ok a) ∧ a.access = some (.ofNat 1, .player, .ofNat 3) := by
  have hrun : ((Policy.calls fun _ => True).steps (body sampleEnv) (initial freshDb []) strayRun).bind
      (fun s => (s.procs 1).bind fun p => p.prog.result.bind fun r => r.toOption.bind Res.access) =
      some (.ofNat 1, .player, .ofNat 3) := by decide +kernel
  obtain ⟨s, hs, hp⟩ := Option.bind_eq_some_iff.mp hrun
  obtain ⟨p, hp, hr⟩ := Option.bind_eq_some_iff.mp hp
  obtain ⟨r, hr, ha⟩ := Option.bind_eq_some_iff.mp hr
  obtain ⟨a, ha, haccess⟩ := Option.bind_eq_some_iff.mp ha
  refine ⟨s, p, a, hs, hp, ?_, haccess⟩
  cases r with
  | ok b => cases ha; exact hr
  | error e => cases ha

theorem provenance_of_stray_run : ∃ s p a,
    (Policy.calls fun _ => True).steps (body sampleEnv) (initial freshDb []) strayRun = some s ∧
      s.procs 1 = some p ∧ p.prog.Ends (.ok a) ∧ a.access = some (.ofNat 1, .player, .ofNat 3) ∧
      ∀ x ∈ s.world.db.sessions, Traced freshDb s.world.log s.world.db.sessions x := by
  obtain ⟨s, p, a, hs, hp, hr, ha⟩ := stray_answer
  exact ⟨s, p, a, hs, hp, hr, ha, (provenance_of_run (.steps known_freshDb hs) .nil).1⟩

end JitoGame.Auth
