import JitoGame.Web.Session

namespace JitoGame.Web.Tab

open Auth Function

variable {s s' : Tab} {l : Label} {lossy : Bool}

theorem isNew_iff {r : ℕ} : s.isNew r = true ↔ s.requests r = none := by
  simp [isNew]

inductive Handled (s : Tab) (r : ℕ) (q : Request) (row : Session) (now : ℕ) : Tab → Prop
  | admitted (hq : q.stage = .sent) (hc : ∃ c retry, q.cause = .authed .logout c retry)
    (hguard : canActivate s.sessions q.accessToken = true) : Handled s r q row now (s.mark r q .admitted)
  | turned {a : Answer} (hq : q.stage = .sent ∨ q.stage = .admitted) (ha : ∀ t, a ≠ .tokens t)
    (hok : a = .ok → ∃ c retry, q.cause = .authed .me c retry) : Handled s r q row now (s.answer r q a)
  | login {sub : Uuid} (hc : q.cause = .login) (hq : q.stage = .sent)
    (hrow : opens s.sessions row = true) :
    Handled s r q row now
      (answer { s with sessions := s.sessions ++ [row] } r q (.tokens ⟨row.id, sub, row.id⟩))
  | reused {t : Token} {x : Session} (hc : q.cause = .refresh) (hq : q.stage = .sent)
    (ht : q.cookie = some t) (hx : x ∈ s.sessions) (hid : x.id = t.sid)
    (hrevoked : x.revokedAt.isSome = true) :
    Handled s r q row now (answer { s with
      sessions := revokeReused s.sessions x now
      swept := true } r q .unauthorized)
  | rotated {t : Token} {x : Session} (hc : q.cause = .refresh) (hq : q.stage = .sent)
    (ht : q.cookie = some t) (hx : x ∈ s.sessions) (hid : x.id = t.sid)
    (hrow : opens s.sessions row = true) :
    Handled s r q row now (answer { s with sessions := rotated s.sessions x row now } r q
      (.tokens ⟨row.id, t.sub, t.login⟩))
  | logout {t : Token} (hq : q.stage = .admitted) (ht : q.accessToken = some t) :
    Handled s r q row now (answer { s with
      sessions := s.sessions.map fun x => if wanted t x then x.revoked now else x
      closed := (s.sessions.filter (wanted t)).map (·.id) ++ s.closed } r q .ok)

theorem refresh_cases {r : ℕ} {q : Request} {row : Session} {now : ℕ} (hc : q.cause = .refresh)
    (hq : q.stage = .sent) (h : AuthController.refresh s r q row now = some s') :
    Handled s r q row now s' := by
  have hturned : Handled s r q row now (s.answer r q .unauthorized) :=
    .turned (.inl hq) (fun _ heq => (by cases heq)) fun heq => (by cases heq)
  rw [AuthController.refresh] at h
  split at h
  · cases h
    exact hturned
  · rename_i t ht
    split at h
    · cases h
      exact hturned
    · rename_i x hx
      have hid : x.id = t.sid := by simpa using List.find?_some hx
      have hmem := List.mem_of_find?_eq_some hx
      split at h
      · rename_i hrevoked
        cases h
        exact .reused hc hq ht hmem hid hrevoked
      · split at h
        · cases h
          exact hturned
        · split at h
          · rename_i hopens
            cases h
            exact .rotated hc hq ht hmem hid hopens.1
          · cases h

theorem serve_cases {r : ℕ} {q : Request} {v : Verdict} {row : Session} {now : ℕ}
    (h : s.serve r q v row now = some s') : Handled s r q row now s' := by
  unfold serve at h
  split at h
  · rename_i hq
    split at h
    · rename_i hc
      rw [AuthController.login] at h
      split at h
      · cases h
      · split at h
        · rename_i hopens
          cases h
          exact .login hc hq hopens
        · cases h
    · rename_i hc
      exact refresh_cases hc hq h
    · rename_i hc
      cases h
      refine .turned (.inl hq) (fun t heq => ?_) fun _ => ⟨_, _, hc⟩
      split at heq <;> cases heq
    · rename_i hc
      cases h
      rw [AuthController.enterLogout]
      split
      · rename_i hguard
        exact .admitted hq ⟨_, _, hc⟩ hguard
      · exact .turned (.inl hq) (fun _ heq => (by cases heq)) fun heq => (by cases heq)
  · rename_i hq
    obtain ⟨t, ht, rfl⟩ := Option.map_eq_some_iff.mp h
    exact .logout hq ht
  · rename_i hq
    cases h
    exact .turned (.inl hq) (fun _ heq => (by cases heq)) fun heq => (by cases heq)
  · rename_i hq
    cases h
    exact .turned (.inl hq) (fun _ heq => (by cases heq)) fun heq => (by cases heq)
  · rename_i hq
    cases h
    exact .turned (.inr hq) (fun _ heq => (by cases heq)) fun heq => (by cases heq)
  · cases h

inductive Moves (lossy : Bool) (s : Tab) : Label → Tab → Prop
  | loginWithPassword {r : ℕ} (hr : s.requests r = none) :
    Moves lossy s (.loginWithPassword r) (s.loginWithPassword r)
  | refreshAccessToken {r : ℕ} (hr : s.requests r = none) :
    Moves lossy s (.refreshAccessToken r) (s.refreshAccessToken r)
  | fetchCurrentSession {c r : ℕ} (hr : s.requests r = none) :
    Moves lossy s (.fetchCurrentSession c r) (s.fetchCurrentSession c r)
  | restoreSession {c r : ℕ} (hr : s.requests r = none) :
    Moves lossy s (.restoreSession c r) (s.restoreSession c r)
  | logoutSession {c r : ℕ} (hr : s.requests r = none) :
    Moves lossy s (.logoutSession c r) (s.logoutSession c r)
  | serve {r : ℕ} {q : Request} {v : Verdict} {row : Session} {now : ℕ} {s' : Tab}
    (hq : s.requests r = some q) (hs : s.serve r q v row now = some s') :
    Moves lossy s (.serve r v row now) { s' with replayed := s.replayed || s.replays q }
  | arrive {r : ℕ} {q : Request} {a : Answer} (hq : s.requests r = some q)
    (ha : q.stage = .answered a) :
    Moves lossy s (.arrive r) ((s.mark r q (.arrived a)).setCookie q a)
  | lose {r : ℕ} {q : Request} (hq : s.requests r = some q) (hl : lossy = true) :
    Moves lossy s (.lose r) (s.mark r q (.arrived .failed))
  | resume {r new : ℕ} {q : Request} {a : Answer} (hq : s.requests r = some q)
    (ha : q.stage = .arrived a) (hnew : s.requests new = none) :
    Moves lossy s (.resume r new) ((s.mark r q (.settled a)).settle q a new)
  | wake {c new r : ℕ} {path : AuthedPath} {retry : Bool} {a : Answer}
    (hc : s.calls c = some (.waiting path retry r)) (hnew : s.requests new = none) :
    Moves lossy s (.wake c new) (s.wake c new path retry a)
  | refreshSettled {r : ℕ} {q : Request} {a : Answer} (hr : s.refreshInFlight = some r)
    (hq : s.requests r = some q) (ha : q.stage = .settled a) :
    Moves lossy s .refreshSettled { s with refreshInFlight := none }
  | restoreSettled : Moves lossy s .restoreSettled { s with restoreInFlight := none }

theorem step_cases (h : step lossy s l = some s') : Moves lossy s l s' := by
  cases l with
  | loginWithPassword r | refreshAccessToken r =>
    simp only [step, Option.ite_none_right_eq_some, Option.some.injEq, isNew_iff] at h
    obtain ⟨hr, rfl⟩ := h
    constructor
    exact hr
  | fetchCurrentSession c r | restoreSession c r | logoutSession c r =>
    simp only [step, Option.ite_none_right_eq_some, Option.some.injEq, isNew_iff] at h
    obtain ⟨⟨hr, -⟩, rfl⟩ := h
    constructor
    exact hr
  | serve r v row now =>
    simp only [step, Option.bind_eq_bind, Option.bind_eq_some_iff, Option.pure_def,
      Option.some.injEq] at h
    obtain ⟨q, hq, m, hm, rfl⟩ := h
    exact .serve hq hm
  | arrive r =>
    obtain ⟨q, hq, h⟩ := Option.bind_eq_some_iff.mp h
    split at h
    · rename_i a ha
      cases h
      exact .arrive hq ha
    · cases h
  | lose r =>
    obtain ⟨q, hq, h⟩ := Option.bind_eq_some_iff.mp h
    split at h
    · rename_i hl
      cases h
      exact .lose hq hl.1
    · cases h
  | resume r new =>
    obtain ⟨q, hq, h⟩ := Option.bind_eq_some_iff.mp h
    split at h
    · rename_i a ha
      split at h
      · rename_i hnew
        cases h
        exact .resume hq ha (isNew_iff.mp hnew)
      · cases h
    · cases h
  | wake c new =>
    simp only [step] at h
    split at h
    · rename_i path retry r hc
      obtain ⟨q, hq, h⟩ := Option.bind_eq_some_iff.mp h
      split at h
      · split at h
        · rename_i hnew
          cases h
          exact .wake hc (isNew_iff.mp hnew.1)
        · cases h
      · cases h
    · cases h
  | refreshSettled =>
    obtain ⟨r, hr, h⟩ := Option.bind_eq_some_iff.mp h
    obtain ⟨q, hq, h⟩ := Option.bind_eq_some_iff.mp h
    split at h
    · rename_i a ha
      cases h
      exact .refreshSettled hr hq ha
    · cases h
  | restoreSettled =>
    obtain ⟨c, hc, h⟩ := Option.bind_eq_some_iff.mp h
    obtain ⟨call, hcall, h⟩ := Option.bind_eq_some_iff.mp h
    split at h
    · cases h
      exact .restoreSettled
    · cases h

structure Sends (s s' : Tab) : Prop where
  accessToken : s'.accessToken = s.accessToken
  sessions : s'.sessions = s.sessions
  clock : s'.clock = s.clock
  owed : s'.owed = s.owed
  overtaken : s'.overtaken = s.overtaken
  closed : s'.closed = s.closed
  replayed : s'.replayed = s.replayed
  swept : s'.swept = s.swept

theorem Sends.refl (s : Tab) : Sends s s := ⟨rfl, rfl, rfl, rfl, rfl, rfl, rfl, rfl⟩

theorem sends_refreshAccessToken (s : Tab) (r : ℕ) : Sends s (s.refreshAccessToken r) := by
  rw [refreshAccessToken]
  split
  · apply Sends.refl
  · exact ⟨rfl, rfl, rfl, rfl, rfl, rfl, rfl, rfl⟩

theorem sends_awaitRefresh (s : Tab) (c r : ℕ) (path : AuthedPath) (retry : Bool) :
    Sends s (s.awaitRefresh c r path retry) := by
  obtain ⟨htoken, hsessions, hclock, howed, hovertaken, hclosed, hreplayed, hswept⟩ :=
    sends_refreshAccessToken s r
  exact ⟨htoken, hsessions, hclock, howed, hovertaken, hclosed, hreplayed, hswept⟩

theorem sends_authedRequest (s : Tab) (c r : ℕ) (path : AuthedPath) :
    Sends s (s.authedRequest c r path) := by
  rw [authedRequest]
  split
  · exact ⟨rfl, rfl, rfl, rfl, rfl, rfl, rfl, rfl⟩
  · apply sends_awaitRefresh

theorem sends_restoreSession (s : Tab) (c r : ℕ) : Sends s (s.restoreSession c r) := by
  rw [restoreSession]
  split
  · apply Sends.refl
  · obtain ⟨htoken, hsessions, hclock, howed, hovertaken, hclosed, hreplayed, hswept⟩ :=
      sends_authedRequest s c r .me
    exact ⟨htoken, hsessions, hclock, howed, hovertaken, hclosed, hreplayed, hswept⟩

theorem sends_setCookie (s : Tab) (q : Request) (a : Answer) : Sends s (s.setCookie q a) := by
  rw [setCookie.eq_def]
  split
  · exact ⟨rfl, rfl, rfl, rfl, rfl, rfl, rfl, rfl⟩
  · split
    · exact ⟨rfl, rfl, rfl, rfl, rfl, rfl, rfl, rfl⟩
    · apply Sends.refl
  · apply Sends.refl

structure Opened (s : Tab) : Prop where
  accessToken : s.accessToken = none
  refreshInFlight : s.refreshInFlight = none
  restoreInFlight : s.restoreInFlight = none
  calls : ∀ c, s.calls c = none
  requests : ∀ r, s.requests r = none
  owed : s.owed = .nothing

def opened (cookie : Option Token) (sessions : List Session) : Tab :=
  ⟨none, none, none, cookie, fun _ => none, fun _ => none, sessions, 0, .nothing, false, [], false,
    false⟩

theorem opened_opened (cookie : Option Token) (sessions : List Session) :
    Opened (opened cookie sessions) :=
  ⟨rfl, rfl, rfl, fun _ => rfl, fun _ => rfl, rfl⟩

def sampleSession (n : ℕ) : Session :=
  ⟨.ofNat n, some (.ofNat 1), none, toString n, none, none, 1000, none, none⟩

def answered (r n : ℕ) : List Label := [.serve r .process (sampleSession n) 0, .arrive r]

end JitoGame.Web.Tab
