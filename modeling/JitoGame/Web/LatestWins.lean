import JitoGame.Web.Interleaving

namespace JitoGame.Web

open Auth Function Traces

variable {s s' s₀ : Tab} {l : Label} {es : List Label} {lossy : Bool}

namespace Tab

structure LatestWins (s : Tab) : Prop where
  loggedOut : s.owed = .noToken → s.hasAccessToken = false
  loggedIn : ∀ login, s.owed = .tokenOf login →
    s.accessToken.map Token.login = some login ∧ s.overtaken = false

/-- What a continuation writes, it writes for the login or logout that resolved last. -/
def Current (s : Tab) (q : Request) (a : Answer) : Prop :=
  match q.cause, a with
  | .refresh, .tokens _ => (s.owed ≠ .nothing → q.born = s.clock) ∧
      ∀ login, s.owed = .tokenOf login → q.cookie.map Token.login = some login
  | .refresh, .unauthorized => ∀ login, s.owed = .tokenOf login →
      q.born = s.clock ∧ q.cookie.map Token.login = some login
  | .authed _ _ false, .unauthorized => ∀ login, s.owed = .tokenOf login →
      q.accessToken.map Token.login = some login
  | _, _ => True

def InTime (s : Tab) : Label → Prop
  | .resume r _ => ∀ q a, s.requests r = some q → q.stage = .arrived a → s.Current q a
  | _ => True

/-! Most steps leave the token and what is owed alone. -/

structure SameToken (s s' : Tab) : Prop where
  accessToken : s'.accessToken = s.accessToken
  owed : s'.owed = s.owed
  overtaken : s'.overtaken = s.overtaken

theorem SameToken.trans {s'' : Tab} (h : SameToken s s') (h' : SameToken s' s'') : SameToken s s'' :=
  ⟨h'.accessToken.trans h.accessToken, h'.owed.trans h.owed, h'.overtaken.trans h.overtaken⟩

theorem LatestWins.of_same (h : LatestWins s) (hs : SameToken s s') : LatestWins s' := by
  constructor
  · intro ho
    rw [hasAccessToken, hs.accessToken]
    exact h.loggedOut (hs.owed ▸ ho)
  · intro login ho
    rw [hs.accessToken, hs.overtaken]
    exact h.loggedIn login (hs.owed ▸ ho)

theorem Sends.sameToken (h : Sends s s') : SameToken s s' := ⟨h.accessToken, h.owed, h.overtaken⟩

theorem sameToken_handled {r : ℕ} {q : Request} {row : Session} {now : ℕ}
    (h : Handled s r q row now s') : SameToken s s' := by
  cases h <;> exact ⟨rfl, rfl, rfl⟩

/-! What the continuations write. -/

theorem latestWins_of_nothing (h : s.owed = .nothing) : LatestWins s := by
  constructor
  · intro ho
    cases h.symm.trans ho
  · intro login ho
    cases h.symm.trans ho

theorem latestWins_loggedOut (s : Tab) : LatestWins s.loggedOut :=
  ⟨fun _ => rfl, fun _ ho => (by cases ho)⟩

theorem LatestWins.finish (h : LatestWins s) (c : ℕ) (path : AuthedPath) :
    LatestWins (s.finish c path) := by
  cases path with
  | me => exact h.of_same ⟨rfl, rfl, rfl⟩
  | logout => exact latestWins_loggedOut _

theorem LatestWins.attempt (h : LatestWins s) (c r : ℕ) (path : AuthedPath) (retry : Bool) :
    LatestWins (s.attempt c r path retry) :=
  h.of_same ⟨rfl, rfl, rfl⟩

theorem LatestWins.wake (h : LatestWins s) (c r : ℕ) (path : AuthedPath) (retry : Bool) (a : Answer) :
    LatestWins (s.wake c r path retry a) := by
  cases a with
  | tokens t => exact h.attempt c r path retry
  | ok | unauthorized | failed => exact h.finish c path

theorem refused_owed (s : Tab) (session : Option Token) :
    session.map (fun t => .tokenOf t.login) = some s.owed ∧ (s.refused session).owed = .nothing ∨
      session.map (fun t => .tokenOf t.login) ≠ some s.owed ∧ (s.refused session).owed = s.owed := by
  by_cases h : session.map (fun t => .tokenOf t.login) = some s.owed
  · exact .inl ⟨h, if_pos h⟩
  · exact .inr ⟨h, if_neg h⟩

theorem LatestWins.refused (h : LatestWins s) (session : Option Token) :
    LatestWins (s.refused session) := by
  rcases refused_owed s session with ⟨-, ho⟩ | ⟨-, ho⟩
  · exact latestWins_of_nothing ho
  · exact h.of_same ⟨rfl, ho, rfl⟩

theorem latestWins_refused_iff (session : Option Token) :
    LatestWins (s.clearSession.refused session) ↔
      ∀ login, s.owed = .tokenOf login → session.map Token.login = some login := by
  constructor
  · intro h login ho
    rcases refused_owed s.clearSession session with ⟨heq, -⟩ | ⟨-, howed⟩
    · obtain ⟨t, rfl, ht⟩ := Option.map_eq_some_iff.mp heq
      exact congrArg some (Owed.tokenOf.inj (ht.trans ho))
    · cases (h.loggedIn login (howed.trans ho)).1
  · intro h
    rcases refused_owed s.clearSession session with ⟨-, howed⟩ | ⟨hne, howed⟩
    · exact latestWins_of_nothing howed
    · refine ⟨fun _ => rfl, fun login ho => ?_⟩
      have hold : s.owed = .tokenOf login := howed.symm.trans ho
      obtain ⟨t, ht, hlogin⟩ := Option.map_eq_some_iff.mp (h login hold)
      refine absurd ?_ hne
      rw [ht, Option.map_some, hlogin]
      exact congrArg some hold.symm

theorem latestWins_unrefreshed_iff (q : Request) : LatestWins (s.unrefreshed q) ↔
    ∀ login, s.owed = .tokenOf login → q.born = s.clock ∧ q.cookie.map Token.login = some login := by
  rw [unrefreshed, latestWins_refused_iff]
  refine forall_congr' fun login => imp_congr_right fun _ => ?_
  by_cases hb : q.born = s.clock
  · simp [hb]
  · simp [hb]

theorem latestWins_refreshed_iff (h : LatestWins s) {q : Request} {t : Token}
    (ht : q.cookie.map Token.login = some t.login) : LatestWins (s.refreshed q t) ↔
      (s.owed ≠ .nothing → q.born = s.clock) ∧
        ∀ login, s.owed = .tokenOf login → q.cookie.map Token.login = some login := by
  cases ho : s.owed with
  | nothing =>
    refine iff_of_true (latestWins_of_nothing (by simp [refreshed, ho])) ⟨fun hne => absurd rfl hne, ?_⟩
    intro login heq
    cases heq
  | noToken =>
    constructor
    · intro h'
      refine ⟨fun _ => ?_, fun _ heq => (by cases heq)⟩
      by_contra hb
      have hheld := h'.loggedOut (by simp [refreshed, ho, hb])
      cases hheld
    · rintro ⟨hb, -⟩
      have hborn : q.born = s.clock := hb fun heq => (by cases heq)
      exact latestWins_of_nothing (by simp [refreshed, ho, hborn])
  | tokenOf ℓ =>
    have howed : (s.refreshed q t).owed = .tokenOf ℓ := by simp [refreshed, ho]
    have hover := (h.loggedIn ℓ ho).2
    constructor
    · intro h'
      obtain ⟨hlogin, hover'⟩ := h'.loggedIn ℓ howed
      simp only [refreshed, hover, Bool.false_or, decide_eq_false_iff_not, ne_eq, not_not] at hover'
      refine ⟨fun _ => hover', fun login heq => ?_⟩
      cases heq
      exact ht.trans hlogin
    · rintro ⟨hb, hlogin⟩
      have hborn : q.born = s.clock := hb fun heq => (by cases heq)
      refine ⟨fun heq => (by cases howed.symm.trans heq), fun login heq => ?_⟩
      cases howed.symm.trans heq
      exact ⟨ht.symm.trans (hlogin ℓ rfl), by simp [refreshed, hover, hborn]⟩

end Tab

/-! The tokens that an answer brings go back to a login. -/

def Stage.answer? : Stage → Option Answer
  | .sent | .admitted => none
  | .answered a | .arrived a | .settled a => some a

def Request.Rooted (q : Request) : Prop :=
  ∀ t, q.stage.answer? = some (.tokens t) →
    (q.cause = .login → t.login = t.sid) ∧
      (q.cause = .refresh → q.cookie.map Token.login = some t.login)

namespace Tab

def Rooted (s : Tab) : Prop := ∀ r q, s.requests r = some q → q.Rooted

theorem Rooted.update (h : Rooted s) {r : ℕ} {q : Request} (hq : q.Rooted)
    (heq : s'.requests = update s.requests r (some q)) : Rooted s' := by
  intro r' q' hq'
  rw [heq, update_apply] at hq'
  split at hq'
  · cases hq'
    exact hq
  · exact h r' q' hq'

theorem Rooted.send (h : Rooted s) (r : ℕ) (cause : Cause) (accessToken : Option Token) :
    Rooted (s.send r cause accessToken) :=
  h.update (q := ⟨cause, accessToken, s.cookie, s.clock, .sent⟩) (fun _ ht => (by cases ht)) rfl

theorem Rooted.mark (h : Rooted s) {r : ℕ} {q : Request} (hq : s.requests r = some q) {stage : Stage}
    (hs : ∀ t, stage.answer? = some (.tokens t) → q.stage.answer? = some (.tokens t)) :
    Rooted (s.mark r q stage) :=
  h.update (q := { q with stage }) (fun t ht => h r q hq t (hs t ht)) rfl

theorem Rooted.refreshAccessToken (h : Rooted s) (r : ℕ) : Rooted (s.refreshAccessToken r) := by
  rw [Tab.refreshAccessToken]
  split
  · exact h
  · exact h.send r .refresh none

theorem Rooted.authedRequest (h : Rooted s) (c r : ℕ) (path : AuthedPath) :
    Rooted (s.authedRequest c r path) := by
  rw [Tab.authedRequest]
  split
  · exact h.send r _ _
  · exact h.refreshAccessToken r

theorem Rooted.restoreSession (h : Rooted s) (c r : ℕ) : Rooted (s.restoreSession c r) := by
  rw [Tab.restoreSession]
  split
  · exact h
  · exact h.authedRequest c r .me

theorem Rooted.finish (h : Rooted s) (c : ℕ) (path : AuthedPath) : Rooted (s.finish c path) := by
  cases path <;> exact h

theorem Rooted.wake (h : Rooted s) (c r : ℕ) (path : AuthedPath) (retry : Bool) (a : Answer) :
    Rooted (s.wake c r path retry a) := by
  cases a with
  | tokens t => exact h.send r _ _
  | ok | unauthorized | failed => exact h.finish c path

theorem Rooted.settle (h : Rooted s) (q : Request) (a : Answer) (r : ℕ) :
    Rooted (s.settle q a r) := by
  rw [Tab.settle.eq_def]
  split
  · exact h
  · exact h
  · exact h
  · exact h
  · exact h
  · exact Rooted.refreshAccessToken (s := s.clearSession.refused q.accessToken) h r
  · exact Rooted.finish (s := s.refused q.accessToken) h _ _
  · exact h.finish _ _

theorem Rooted.setCookie (h : Rooted s) (q : Request) (a : Answer) : Rooted (s.setCookie q a) := by
  rw [Tab.setCookie.eq_def]
  split
  · exact h
  · split <;> exact h
  · exact h

theorem Rooted.handled (h : Rooted s) {r : ℕ} {q : Request} {row : Session} {now : ℕ}
    (hq : s.requests r = some q) (hh : Handled s r q row now s') : Rooted s' := by
  cases hh with
  | admitted => exact h.mark hq fun _ ht => (by cases ht)
  | turned _ ha =>
    apply h.mark hq
    intro t ht
    exact absurd (Option.some.inj ht) (ha t)
  | @login sub hc =>
    refine h.update (q := { q with stage := .answered (.tokens ⟨row.id, sub, row.id⟩) })
      (fun t ht => ?_) rfl
    cases ht
    exact ⟨fun _ => rfl, fun hc' => (by cases hc.symm.trans hc')⟩
  | reused => exact h.mark (s := { s with sessions := _, swept := true }) hq fun _ ht => (by cases ht)
  | @rotated t x hc _ ht =>
    refine h.update (q := { q with stage := .answered (.tokens ⟨row.id, t.sub, t.login⟩) })
      (fun t' ht' => ?_) rfl
    cases ht'
    exact ⟨fun hc' => (by cases hc.symm.trans hc'), fun _ => congrArg (Option.map _) ht⟩
  | logout => exact h.mark (s := { s with sessions := _, closed := _ }) hq fun _ ht => (by cases ht)

theorem rooted_keeps (lossy : Bool) : Preserves (step lossy) Rooted := by
  intro s l s' hstep h
  cases step_cases hstep with
  | loginWithPassword => exact h.send _ _ _
  | refreshAccessToken => exact h.refreshAccessToken _
  | fetchCurrentSession => exact h.authedRequest _ _ _
  | restoreSession => exact h.restoreSession _ _
  | logoutSession => exact h.authedRequest _ _ _
  | serve hq hs =>
    have hserved := h.handled hq (serve_cases hs)
    exact hserved
  | @arrive r q a hq ha => exact (h.mark hq fun t ht => by rw [ha]; exact ht).setCookie q a
  | lose hq => exact h.mark hq fun _ ht => (by cases ht)
  | @resume r new q a hq ha => exact (h.mark hq fun t ht => by rw [ha]; exact ht).settle q a new
  | wake => exact h.wake _ _ _ _ _
  | refreshSettled => exact h
  | restoreSettled => exact h

theorem Opened.rooted (h : Opened s) : Rooted s := fun r q hq => by
  rw [h.requests r] at hq
  cases hq

theorem latestWins_settle_iff (h : LatestWins s) {q : Request} (hq : q.Rooted) {a : Answer}
    (ha : q.stage = .arrived a) (r new : ℕ) :
    LatestWins ((s.mark r q (.settled a)).settle q a new) ↔ s.Current q a := by
  have hm : LatestWins (s.mark r q (.settled a)) := h.of_same ⟨rfl, rfl, rfl⟩
  have hroot (t : Token) (heq : a = .tokens t) := hq t (by rw [ha, heq]; rfl)
  unfold settle Current
  cases hc : q.cause with
  | login =>
    cases a with
    | tokens t =>
      refine iff_of_true ⟨fun ho => (by cases ho), fun login ho => ?_⟩ trivial
      cases ho
      exact ⟨congrArg some ((hroot t rfl).1 hc), rfl⟩
    | ok | unauthorized | failed => exact iff_of_true hm trivial
  | refresh =>
    cases a with
    | tokens t => exact latestWins_refreshed_iff hm ((hroot t rfl).2 hc)
    | unauthorized => exact latestWins_unrefreshed_iff q
    | ok | failed => exact iff_of_true hm trivial
  | authed path c retry =>
    cases retry with
    | true =>
      cases a with
      | unauthorized => exact iff_of_true ((hm.refused q.accessToken).finish c path) trivial
      | tokens | ok | failed => exact iff_of_true (hm.finish c path) trivial
    | false =>
      cases a with
      | unauthorized =>
        have hiff := latestWins_refused_iff (s := s.mark r q (.settled .unauthorized)) q.accessToken
        have hawait := sends_awaitRefresh
          ((s.mark r q (.settled .unauthorized)).clearSession.refused q.accessToken) c new path true
        constructor
        · intro h'
          apply hiff.mp
          exact h'.of_same ⟨hawait.accessToken.symm, hawait.owed.symm, hawait.overtaken.symm⟩
        · intro hc
          exact (hiff.mpr hc).of_same hawait.sameToken
      | tokens | ok | failed => exact iff_of_true (hm.finish c path) trivial

theorem latestWins_step (hroot : Rooted s) (h : LatestWins s) (hstep : step lossy s l = some s') :
    LatestWins s' ↔ InTime s l := by
  have hquiet (hl : InTime s l) (hsame : SameToken s s') : LatestWins s' ↔ InTime s l :=
    iff_of_true (h.of_same hsame) hl
  cases step_cases hstep with
  | loginWithPassword => exact hquiet trivial ⟨rfl, rfl, rfl⟩
  | refreshAccessToken => exact hquiet trivial (sends_refreshAccessToken s _).sameToken
  | fetchCurrentSession => exact hquiet trivial (sends_authedRequest s _ _ _).sameToken
  | restoreSession => exact hquiet trivial (sends_restoreSession s _ _).sameToken
  | logoutSession => exact hquiet trivial (sends_authedRequest s _ _ _).sameToken
  | serve _ hs =>
    have hsame := sameToken_handled (serve_cases hs)
    exact hquiet trivial ⟨hsame.accessToken, hsame.owed, hsame.overtaken⟩
  | @arrive r q a =>
    have hmark : SameToken s (s.mark r q (.arrived a)) := ⟨rfl, rfl, rfl⟩
    exact hquiet trivial (hmark.trans (sends_setCookie _ q a).sameToken)
  | lose => exact hquiet trivial ⟨rfl, rfl, rfl⟩
  | @resume r new q a hq ha =>
    refine (latestWins_settle_iff h (hroot r q hq) ha r new).trans ⟨fun hc q' a' hq' ha' => ?_,
      fun hc => hc q a hq ha⟩
    cases hq.symm.trans hq'
    cases ha.symm.trans ha'
    exact hc
  | @wake c new _ path retry a => exact iff_of_true (h.wake c new path retry a) trivial
  | refreshSettled => exact hquiet trivial ⟨rfl, rfl, rfl⟩
  | restoreSettled => exact hquiet trivial ⟨rfl, rfl, rfl⟩

/-- The latest login or logout wins in every state of a run exactly when every continuation of the run
writes in time. -/
theorem latestWins_always_iff (h : Opened s₀) (hr : run (step lossy) s₀ es = some s) :
    (∀ u, Visits (step lossy) s₀ es u → LatestWins u) ↔ Throughout (step lossy) InTime s₀ es :=
  always_iff (rooted_keeps lossy) (fun _ _ _ => latestWins_step) h.rooted
    (latestWins_of_nothing h.owed) hr

def loginRun : List Label := (.loginWithPassword 1 :: answered 1 2) ++ [.resume 1 9]

theorem login_wins : ∃ s, run (step false) (opened none []) loginRun = some s ∧
    s.hasAccessToken = true ∧ ∀ u, Visits (step false) (opened none []) loginRun u → LatestWins u := by
  have hrun : (run (step false) (opened none []) loginRun).map hasAccessToken = some true := by
    decide +kernel
  obtain ⟨s, hs, htoken⟩ := Option.map_eq_some_iff.mp hrun
  refine ⟨s, hs, htoken, (latestWins_always_iff (opened_opened none []) hs).mpr ?_⟩
  have hanswer : (run (step false) (opened none []) (.loginWithPassword 1 :: answered 1 2)).map
      (fun s => (s.requests 1).map Request.cause) = some (some .login) := by decide +kernel
  obtain ⟨m, hm, hcause⟩ := Option.map_eq_some_iff.mp hanswer
  refine (throughout_append hm).mpr ⟨.of_forall ?_, fun q a hq _ => ?_, fun _ _ => trivial⟩
  · intro l hl _
    have hbefore : l ∈ [Label.loginWithPassword 1, .serve 1 .process (sampleSession 2) 0, .arrive 1] := hl
    simp only [List.mem_cons, List.not_mem_nil, or_false] at hbefore
    rcases hbefore with rfl | rfl | rfl <;> trivial
  rw [hq] at hcause
  have hlogin : q.cause = .login := Option.some.inj hcause
  simp [Current, hlogin]

def staleRefreshRun : List Label := .restoreSession 0 0 :: loginRun ++ answered 0 3 ++ [.resume 0 9]

/-- The 401 of a refresh sent without a cookie erases the token of the login. -/
theorem stale_refresh_erases : ∃ s, run (step false) (opened none []) staleRefreshRun = some s ∧
    s.owed = .tokenOf (.ofNat 2) ∧ s.hasAccessToken = false ∧ ¬ LatestWins s := by
  have hrun : (run (step false) (opened none []) staleRefreshRun).map
      (fun s => (s.owed, s.accessToken)) = some (.tokenOf (.ofNat 2), none) := by decide +kernel
  obtain ⟨s, hs, heq⟩ := Option.map_eq_some_iff.mp hrun
  obtain ⟨howed, htoken⟩ := Prod.mk.inj heq
  refine ⟨s, hs, howed, by rw [hasAccessToken, htoken]; rfl, fun h => ?_⟩
  have hlogin := (h.loggedIn _ howed).1
  rw [htoken] at hlogin
  cases hlogin

end Tab

end JitoGame.Web
