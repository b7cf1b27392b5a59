import JitoGame.Web.Replay

namespace JitoGame.Web.Tab

open Auth AuthService Function Traces

variable {s s' s₀ : Tab} {l : Label} {es : List Label} {r r' : ℕ} {q : Request} {t k : Token}
variable {sid : Uuid} {stage : Stage}

/-! Between the server's answer to a logout and the moment at which the tab hears of it. -/

-- a logout of the session is through, and its answer is on its way
def Closing (s : Tab) (sid : Uuid) : Prop :=
  ∃ r q, s.requests r = some q ∧ (∃ c retry, q.cause = .authed .logout c retry) ∧
    q.stage = .answered .ok ∧ q.accessToken.map Token.sid = some sid

/-- No refresh is on its way to the server with the cookie of a session while the answer to a logout of
that session is on its way back. -/
def Apart (s : Tab) : Prop := ∀ r k, s.Refreshing r k → ¬ s.Closing k.sid

/-- The server has met no replayed token, and meets none in what it may take up next. -/
def Silent (s : Tab) : Prop :=
  Unreplayed s ∧ ∀ r v row now s', step false s (.serve r v row now) = some s' → Unreplayed s'

-- an access token of the tab, of a request or of an answer that the tab has
def Held (s : Tab) (t : Token) : Prop :=
  s.accessToken = some t ∨ ∃ r q, s.requests r = some q ∧
    (q.accessToken = some t ∨ q.stage = .arrived (.tokens t) ∨ q.stage = .settled (.tokens t))

structure Tidy (s : Tab) : Prop where
  held : ∀ t, s.Held t → s.Known t.sid ∧ ∀ r t', s.Bringing r t' → t'.sid ≠ t.sid
  bringing : ∀ r t, s.Bringing r t → t.sid ∉ s.closed
  cookie : ∀ k, s.cookie = some k → k.sid ∈ s.closed → s.Closing k.sid
  refreshing : ∀ r k, s.Refreshing r k → k.sid ∈ s.closed → s.Closing k.sid
  closing : ∀ sid, s.Closing sid → ∃ x ∈ s.sessions, x.id = sid ∧ x.revokedAt.isSome = true
  admitted : ∀ r q, s.requests r = some q → q.stage = .admitted →
    (∃ c retry, q.cause = .authed .logout c retry) ∧
      ∃ t, q.accessToken = some t ∧ ∃ x ∈ s.sessions, x.id = t.sid ∧ x.userId = some t.sub

structure Calmer (s s' : Tab) : Prop where
  sessions : s'.sessions = s.sessions
  closed : s'.closed = s.closed
  cookie : s'.cookie = s.cookie
  held : ∀ t, s'.Held t → s.Held t
  bringing : ∀ r t, s'.Bringing r t → s.Bringing r t
  refreshing : ∀ r k, s'.Refreshing r k → s.Refreshing r k ∨ s.cookie = some k
  closing : ∀ sid, s'.Closing sid ↔ s.Closing sid
  admitted : ∀ r q, s'.requests r = some q → q.stage = .admitted → s.requests r = some q

theorem Calmer.trans {u : Tab} (h : Calmer s s') (h' : Calmer s' u) : Calmer s u where
  sessions := h'.sessions.trans h.sessions
  closed := h'.closed.trans h.closed
  cookie := h'.cookie.trans h.cookie
  held t ht := h.held t (h'.held t ht)
  bringing r t hb := h.bringing r t (h'.bringing r t hb)
  refreshing r k hr := by
    rcases h'.refreshing r k hr with hr | hk
    · exact h.refreshing r k hr
    · exact .inr (h.cookie.symm.trans hk)
  closing sid := (h'.closing sid).trans (h.closing sid)
  admitted r q hq ha := h.admitted r q (h'.admitted r q hq ha) ha

theorem Calmer.of_same (hrequests : s'.requests = s.requests) (hsessions : s'.sessions = s.sessions)
    (hclosed : s'.closed = s.closed) (hcookie : s'.cookie = s.cookie)
    (htoken : ∀ t, s'.accessToken = some t → s.Held t) : Calmer s s' := by
  refine ⟨hsessions, hclosed, hcookie, ?_, ?_, ?_, ?_, ?_⟩
  · rintro t (ht | ⟨r, q, hq, hrest⟩)
    · exact htoken t ht
    · exact .inr ⟨r, q, hrequests ▸ hq, hrest⟩
  · rintro r t ⟨q, hq, hrest⟩
    exact ⟨q, hrequests ▸ hq, hrest⟩
  · rintro r k ⟨q, hq, hrest⟩
    exact .inl ⟨q, hrequests ▸ hq, hrest⟩
  · intro sid
    rw [Closing, Closing, hrequests]
  · intro r q hq _
    exact hrequests ▸ hq

theorem Tidy.calmer (h : Tidy s) (hs : Calmer s s') : Tidy s' where
  held t ht := by
    obtain ⟨hknown, hnew⟩ := h.held t (hs.held t ht)
    exact ⟨hknown.of_sessions hs.sessions, fun r t' hb => hnew r t' (hs.bringing r t' hb)⟩
  bringing r t hb := hs.closed ▸ h.bringing r t (hs.bringing r t hb)
  cookie k hk hclosed := (hs.closing _).mpr (h.cookie k (hs.cookie.symm.trans hk) (hs.closed ▸ hclosed))
  refreshing r k hr hclosed := by
    rw [hs.closing]
    rcases hs.refreshing r k hr with hr | hk
    · exact h.refreshing r k hr (hs.closed ▸ hclosed)
    · exact h.cookie k hk (hs.closed ▸ hclosed)
  closing sid hc := hs.sessions ▸ h.closing sid ((hs.closing sid).mp hc)
  admitted r q hq ha := by
    rw [hs.sessions]
    exact h.admitted r q (hs.admitted r q hq ha) ha

section Update

variable {new : Request} (heq : s'.requests = update s.requests r (some new))
include heq

theorem closing_update : s'.Closing sid ↔
    ((∃ c retry, new.cause = .authed .logout c retry) ∧ new.stage = .answered .ok ∧
      new.accessToken.map Token.sid = some sid) ∨
    ∃ r' ≠ r, ∃ q, s.requests r' = some q ∧ (∃ c retry, q.cause = .authed .logout c retry) ∧
      q.stage = .answered .ok ∧ q.accessToken.map Token.sid = some sid := by
  rw [Closing, heq]
  simp only [exists_update]
  constructor
  · rintro ⟨r', ⟨-, hnew⟩ | ⟨hne, hold⟩⟩
    · exact .inl hnew
    · exact .inr ⟨r', hne, hold⟩
  · rintro (hnew | ⟨r', hne, hold⟩)
    · exact ⟨r, .inl ⟨rfl, hnew⟩⟩
    · exact ⟨r', .inr ⟨hne, hold⟩⟩

theorem closing_update_iff
    (hold : ∀ q, s.requests r = some q → q.stage = .answered .ok →
      ∀ c retry, q.cause ≠ .authed .logout c retry)
    (hnew : new.stage = .answered .ok → ∀ c retry, new.cause ≠ .authed .logout c retry) :
    s'.Closing sid ↔ s.Closing sid := by
  rw [closing_update heq]
  constructor
  · rintro (⟨⟨c, retry, hc⟩, ha, -⟩ | ⟨r', -, q, hrest⟩)
    · exact absurd hc (hnew ha c retry)
    · exact ⟨r', q, hrest⟩
  · rintro ⟨r', q, hq, ⟨c, retry, hc⟩, ha, ht⟩
    have hne : r' ≠ r := by
      rintro rfl
      exact hold q hq ha c retry hc
    exact .inr ⟨r', hne, q, hq, ⟨c, retry, hc⟩, ha, ht⟩

theorem closing_of_stages (hq : s.requests r = some q) (hold : q.stage ≠ .answered .ok)
    (hnew : new.stage ≠ .answered .ok) : s'.Closing sid ↔ s.Closing sid := by
  refine closing_update_iff heq (fun q' hq' hok => ?_) fun hok => absurd hok hnew
  cases hq.symm.trans hq'
  exact absurd hok hold

theorem held_update (htoken : s'.accessToken = s.accessToken) (hh : s'.Held t) :
    s.Held t ∨ new.accessToken = some t ∨ new.stage = .arrived (.tokens t) ∨
      new.stage = .settled (.tokens t) := by
  rcases hh with ht | ⟨r', q, hq, hrest⟩
  · exact .inl (.inl (htoken.symm.trans ht))
  · rw [heq] at hq
    by_cases hr : r' = r
    · subst hr
      rw [update_self] at hq
      cases hq
      exact .inr hrest
    · rw [update_of_ne hr] at hq
      exact .inl (.inr ⟨r', q, hq, hrest⟩)

theorem held_of_update (htoken : s'.accessToken = s.accessToken) (hq : s.requests r = some q)
    (hsame : new.accessToken = q.accessToken) (harrived : ∀ t, new.stage ≠ .arrived (.tokens t))
    (hsettled : ∀ t, new.stage ≠ .settled (.tokens t)) (hh : s'.Held t) : s.Held t := by
  rcases held_update heq htoken hh with hold | ht | ht | ht
  · exact hold
  · exact .inr ⟨r, q, hq, .inl (hsame.symm.trans ht)⟩
  · exact absurd ht (harrived t)
  · exact absurd ht (hsettled t)

theorem refreshing_of_update (hstage : new.stage ≠ .sent) (hr : s'.Refreshing r' k) : s.Refreshing r' k := by
  rcases (refreshing_update heq).mp hr with ⟨-, -, hs, -⟩ | ⟨-, hr⟩
  · exact absurd hs hstage
  · exact hr

theorem bringing_of_update (hstage : ∀ t, new.stage ≠ .answered (.tokens t)) (hb : s'.Bringing r' t) :
    s.Bringing r' t := by
  rcases (bringing_update heq).mp hb with ⟨-, hs⟩ | ⟨-, hb⟩
  · exact absurd hs (hstage t)
  · exact hb

theorem admitted_update (hstage : new.stage ≠ .admitted) (hq : s'.requests r' = some q)
    (ha : q.stage = .admitted) : s.requests r' = some q := by
  rw [heq] at hq
  by_cases hr : r' = r
  · subst hr
    rw [update_self] at hq
    cases hq
    exact absurd ha hstage
  · rwa [update_of_ne hr] at hq

end Update

/-! The tab. -/

theorem calmer_send (hr : s.requests r = none) (cause : Cause) {accessToken : Option Token}
    (htoken : ∀ t, accessToken = some t → s.accessToken = some t) :
    Calmer s (s.send r cause accessToken) := by
  have heq : (s.send r cause accessToken).requests =
      update s.requests r (some ⟨cause, accessToken, s.cookie, s.clock, .sent⟩) := rfl
  refine ⟨rfl, rfl, rfl, ?_, ?_, ?_, ?_, ?_⟩
  · intro t ht
    rcases held_update heq rfl ht with hold | ht | ht | ht
    · exact hold
    · exact .inl (htoken t ht)
    · cases ht
    · cases ht
  · intro r' t hb
    rcases (bringing_update heq).mp hb with ⟨-, ha⟩ | ⟨-, hb⟩
    · cases ha
    · exact hb
  · intro r' k hk
    rcases (refreshing_update heq).mp hk with ⟨-, -, -, hk⟩ | ⟨-, hk⟩
    · exact .inr hk
    · exact .inl hk
  · intro sid
    refine closing_update_iff heq (fun q hq => ?_) fun ha => (by cases ha)
    cases hr.symm.trans hq
  · intro r' q hq ha
    exact admitted_update heq (fun h => (by cases h)) hq ha

theorem calmer_refl (s : Tab) : Calmer s s := .of_same rfl rfl rfl rfl fun _ ht => .inl ht

theorem calmer_refreshAccessToken (hr : s.requests r = none) : Calmer s (s.refreshAccessToken r) := by
  rw [refreshAccessToken]
  split
  · exact calmer_refl s
  · exact (calmer_send hr .refresh fun _ ht => (by cases ht)).trans
      (.of_same rfl rfl rfl rfl fun _ ht => .inl ht)

theorem calmer_awaitRefresh (hr : s.requests r = none) (c : ℕ) (path : AuthedPath) (retry : Bool) :
    Calmer s (s.awaitRefresh c r path retry) :=
  (calmer_refreshAccessToken hr).trans (.of_same rfl rfl rfl rfl fun _ ht => .inl ht)

theorem calmer_attempt (hr : s.requests r = none) (c : ℕ) (path : AuthedPath) (retry : Bool) :
    Calmer s (s.attempt c r path retry) :=
  (calmer_send hr _ fun _ ht => ht).trans (.of_same rfl rfl rfl rfl fun _ ht => .inl ht)

theorem calmer_authedRequest (hr : s.requests r = none) (c : ℕ) (path : AuthedPath) :
    Calmer s (s.authedRequest c r path) := by
  rw [authedRequest]
  split
  · exact calmer_attempt hr c path false
  · exact calmer_awaitRefresh hr c path false

theorem calmer_restoreSession (hr : s.requests r = none) (c : ℕ) : Calmer s (s.restoreSession c r) := by
  rw [restoreSession]
  split
  · exact calmer_refl s
  · exact (calmer_authedRequest hr c .me).trans (.of_same rfl rfl rfl rfl fun _ ht => .inl ht)

theorem calmer_finish (s : Tab) (c : ℕ) (path : AuthedPath) : Calmer s (s.finish c path) := by
  cases path with
  | me => exact .of_same rfl rfl rfl rfl fun _ ht => .inl ht
  | logout => exact .of_same rfl rfl rfl rfl fun _ ht => (by cases ht)

theorem calmer_wake (hr : s.requests r = none) (c : ℕ) (path : AuthedPath) (retry : Bool) (a : Answer) :
    Calmer s (s.wake c r path retry a) := by
  cases a with
  | tokens t => exact calmer_attempt hr c path retry
  | ok | unauthorized | failed => exact calmer_finish s c path

theorem calmer_refused (s : Tab) (session : Option Token) : Calmer s (s.refused session) :=
  .of_same rfl rfl rfl rfl fun _ ht => .inl ht

theorem calmer_settle (hr : s.requests r = none) (q : Request) {a : Answer}
    (ha : ∀ t, a = .tokens t → s.Held t) : Calmer s (s.settle q a r) := by
  rw [Tab.settle.eq_def]
  split
  · rename_i t _
    refine .of_same rfl rfl rfl rfl fun t' ht => ?_
    cases ht
    exact ha t rfl
  · exact calmer_refl s
  · rename_i t _
    refine .of_same rfl rfl rfl rfl fun t' ht => ?_
    cases ht
    exact ha t rfl
  · exact .of_same rfl rfl rfl rfl fun _ ht => (by cases ht)
  · exact calmer_refl s
  · have hcleared : Calmer s (s.clearSession.refused q.accessToken) :=
      .of_same rfl rfl rfl rfl fun _ ht => (by cases ht)
    have hr' : (s.clearSession.refused q.accessToken).requests r = none := hr
    exact hcleared.trans (calmer_awaitRefresh hr' _ _ true)
  · exact (calmer_refused s q.accessToken).trans (calmer_finish _ _ _)
  · exact calmer_finish s _ _

theorem calmer_mark (hq : s.requests r = some q)
    (hold : q.stage = .answered .ok → ∀ c retry, q.cause ≠ .authed .logout c retry)
    (hnew : stage = .answered .ok → ∀ c retry, q.cause ≠ .authed .logout c retry)
    (hsent : stage ≠ .sent) (hadmitted : stage ≠ .admitted) (hbring : ∀ t, stage ≠ .answered (.tokens t))
    (hheld : ∀ t, stage = .arrived (.tokens t) ∨ stage = .settled (.tokens t) → s.Held t) :
    Calmer s (s.mark r q stage) := by
  have heq : (s.mark r q stage).requests = update s.requests r (some { q with stage }) := rfl
  refine ⟨rfl, rfl, rfl, ?_, ?_, ?_, ?_, ?_⟩
  · intro t ht
    rcases held_update heq rfl ht with hs | ht | ht
    · exact hs
    · exact .inr ⟨r, q, hq, .inl ht⟩
    · exact hheld t ht
  · exact fun r' t hb => bringing_of_update heq hbring hb
  · exact fun r' k hk => .inl (refreshing_of_update heq hsent hk)
  · intro sid
    refine closing_update_iff heq (fun q' hq' => ?_) hnew
    cases hq.symm.trans hq'
    exact hold
  · intro r' q' hq' ha
    exact admitted_update heq hadmitted hq' ha

/-! The cookie jar. -/

theorem Tidy.keepCookie (h : Tidy s) (hs : Honest s) (hq : s.requests r = some q)
    (ha : q.stage = .answered (.tokens t)) :
    Tidy { s.mark r q (.arrived (.tokens t)) with cookie := some t } := by
  have hb : s.Bringing r t := ⟨q, hq, ha⟩
  have heq : Tab.requests { s.mark r q (.arrived (.tokens t)) with cookie := some t } =
      update s.requests r (some { q with stage := .arrived (.tokens t) }) := rfl
  have hrest {r' : ℕ} {t' : Token}
      (hb' : Bringing { s.mark r q (.arrived (.tokens t)) with cookie := some t } r' t') :
      r' ≠ r ∧ s.Bringing r' t' := by
    rcases (bringing_update heq).mp hb' with ⟨-, hs⟩ | hold
    · cases hs
    · exact hold
  have hclosing (sid : Uuid) :
      Closing { s.mark r q (.arrived (.tokens t)) with cookie := some t } sid ↔ s.Closing sid :=
    closing_of_stages heq hq (fun hok => by cases ha.symm.trans hok) fun hok => by cases hok
  constructor
  case held =>
    intro t' ht'
    rcases held_update heq rfl ht' with hold | htoken | ht | ht
    · obtain ⟨hknown, hnew⟩ := h.held t' hold
      exact ⟨hknown.of_sessions rfl, fun r' t'' hb' => hnew r' t'' (hrest hb').2⟩
    · obtain ⟨hknown, hnew⟩ := h.held t' (.inr ⟨r, q, hq, .inl htoken⟩)
      exact ⟨hknown.of_sessions rfl, fun r' t'' hb' => hnew r' t'' (hrest hb').2⟩
    · cases ht
      refine ⟨(hs.bringing r t hb).known.of_sessions rfl, fun r' t'' hb' => ?_⟩
      obtain ⟨hne, hold⟩ := hrest hb'
      exact hs.distinct r' t'' r t hold hb hne
    · cases ht
  case bringing => exact fun r' t' hb' => h.bringing r' t' (hrest hb').2
  case cookie =>
    intro k hk hclosed
    cases hk
    exact absurd hclosed (h.bringing r t hb)
  case refreshing =>
    intro r' k hr hclosed
    rw [hclosing]
    exact h.refreshing r' k (refreshing_of_update heq (fun hs => by cases hs) hr) hclosed
  case closing => exact fun sid hc => h.closing sid ((hclosing sid).mp hc)
  case admitted =>
    intro r' q' hq' ha'
    exact h.admitted r' q' (admitted_update heq (fun h => by cases h) hq' ha') ha'

theorem Tidy.clearCookie (h : Tidy s) (hs : Apart s) (hq : s.requests r = some q) :
    Tidy { s.mark r q (.arrived .ok) with cookie := none } := by
  have heq : Tab.requests { s.mark r q (.arrived .ok) with cookie := none } =
      update s.requests r (some { q with stage := .arrived .ok }) := rfl
  have hrest {r' : ℕ} {t' : Token}
      (hb' : Bringing { s.mark r q (.arrived .ok) with cookie := none } r' t') : s.Bringing r' t' :=
    bringing_of_update heq (fun _ hs => by cases hs) hb'
  constructor
  case held =>
    intro t' ht'
    have hheld := held_of_update heq rfl hq rfl (fun _ hs => by cases hs) (fun _ hs => by cases hs) ht'
    obtain ⟨hknown, hnew⟩ := h.held t' hheld
    exact ⟨hknown.of_sessions rfl, fun r' t'' hb' => hnew r' t'' (hrest hb')⟩
  case bringing => exact fun r' t' hb' => h.bringing r' t' (hrest hb')
  case cookie =>
    intro k hk
    cases hk
  case refreshing =>
    intro r' k hr hclosed
    have hold := refreshing_of_update heq (fun hs => by cases hs) hr
    exact absurd (h.refreshing r' k hold hclosed) (hs r' k hold)
  case closing =>
    intro sid hc
    rcases (closing_update heq).mp hc with ⟨-, ha, -⟩ | ⟨r', -, hold⟩
    · cases ha
    · exact h.closing sid ⟨r', hold⟩
  case admitted =>
    intro r' q' hq' ha'
    exact h.admitted r' q' (admitted_update heq (fun h => by cases h) hq' ha') ha'

theorem Tidy.arrive (h : Tidy s) (hs : Honest s) (hapart : Apart s) (hq : s.requests r = some q) {a : Answer}
    (ha : q.stage = .answered a) : Tidy ((s.mark r q (.arrived a)).setCookie q a) := by
  have hmark (hno : ∀ t, a ≠ .tokens t) (hok : a = .ok → ∀ c retry, q.cause ≠ .authed .logout c retry) :
      Tidy (s.mark r q (.arrived a)) := by
    refine h.calmer (calmer_mark hq (fun heq => ?_) (fun heq => (by cases heq)) (fun heq => (by cases heq))
      (fun heq => (by cases heq)) (fun _ heq => (by cases heq)) fun t ht => ?_)
    · cases ha.symm.trans heq
      exact hok rfl
    · rcases ht with ht | ht
      · cases ht
        exact absurd rfl (hno t)
      · cases ht
  cases a with
  | tokens t => exact h.keepCookie hs hq ha
  | unauthorized | failed => exact hmark (fun _ heq => (by cases heq)) fun heq => (by cases heq)
  | ok =>
    rw [Tab.setCookie]
    split
    · exact h.clearCookie hapart hq
    · rename_i hno
      exact hmark (fun _ heq => (by cases heq)) fun _ c retry hc => hno c retry hc

/-! The server. -/

def Keeps (rows rows' : List Session) : Prop := ∀ x ∈ rows, ∃ y ∈ rows', y.id = x.id ∧
  y.userId = x.userId ∧ (x.revokedAt.isSome = true → y.revokedAt.isSome = true)

theorem Tidy.keeps (h : Tidy s) {sessions : List Session} (hk : Keeps s.sessions sessions) :
    Tidy { s with sessions } where
  held t ht := by
    obtain ⟨⟨x, hx, hid⟩, hnew⟩ := h.held t ht
    obtain ⟨y, hy, hyid, -⟩ := hk x hx
    exact ⟨⟨y, hy, hyid.trans hid⟩, hnew⟩
  bringing := h.bringing
  cookie := h.cookie
  refreshing := h.refreshing
  closing sid hc := by
    obtain ⟨x, hx, hid, hrevoked⟩ := h.closing sid hc
    obtain ⟨y, hy, hyid, -, hstill⟩ := hk x hx
    exact ⟨y, hy, hyid.trans hid, hstill hrevoked⟩
  admitted r q hq ha := by
    obtain ⟨hc, t, ht, x, hx, hid, huser⟩ := h.admitted r q hq ha
    obtain ⟨y, hy, hyid, hyuser, -⟩ := hk x hx
    exact ⟨hc, t, ht, y, hy, hyid.trans hid, hyuser.trans huser⟩

theorem Tidy.brings (h : Tidy s) (hq : s.requests r = some q) (hsent : q.stage = .sent)
    (hnew : ∀ t', s.Held t' → t.sid ≠ t'.sid) (hclosed : t.sid ∉ s.closed) :
    Tidy (s.answer r q (.tokens t)) := by
  have heq : (s.answer r q (.tokens t)).requests =
      update s.requests r (some { q with stage := .answered (.tokens t) }) := rfl
  have hclosing (sid : Uuid) : (s.answer r q (.tokens t)).Closing sid ↔ s.Closing sid :=
    closing_of_stages heq hq (fun hok => by cases hsent.symm.trans hok) fun hok => by cases hok
  constructor
  case held =>
    intro t' ht'
    have hheld := held_of_update heq rfl hq rfl (fun _ hs => by cases hs) (fun _ hs => by cases hs) ht'
    refine ⟨(h.held t' hheld).1.of_sessions rfl, fun r' t'' hb => ?_⟩
    rcases (bringing_update heq).mp hb with ⟨-, ha⟩ | ⟨-, hb⟩
    · cases ha
      exact hnew t' hheld
    · exact (h.held t' hheld).2 r' t'' hb
  case bringing =>
    intro r' t' hb
    rcases (bringing_update heq).mp hb with ⟨-, ha⟩ | ⟨-, hb⟩
    · cases ha
      exact hclosed
    · exact h.bringing r' t' hb
  case cookie => exact fun k hk hc => (hclosing _).mpr (h.cookie k hk hc)
  case refreshing =>
    intro r' k hr hc
    rw [hclosing]
    exact h.refreshing r' k (refreshing_of_update heq (fun hs => by cases hs) hr) hc
  case closing => exact fun sid hc => h.closing sid ((hclosing sid).mp hc)
  case admitted =>
    intro r' q' hq' ha'
    exact h.admitted r' q' (admitted_update heq (fun h => by cases h) hq' ha') ha'

theorem Tidy.opens (h : Tidy s) (hs : Honest s) (hq : s.requests r = some q) (hsent : q.stage = .sent)
    {row : Session} (hrow : opens s.sessions row = true) (ht : t.sid = row.id) {sessions : List Session}
    (hk : Keeps s.sessions sessions) : Tidy (answer { s with sessions } r q (.tokens t)) := by
  have hfresh : ¬ s.Known t.sid := ht ▸ opens_fresh hrow
  refine (h.keeps hk).brings hq hsent (fun t' ht' heq => ?_) fun hclosed => ?_
  · exact hfresh (heq ▸ (h.held t' ht').1)
  · obtain ⟨x, hx, hid, -⟩ := hs.closed _ hclosed
    exact hfresh ⟨x, hx, hid⟩

theorem Tidy.admit (h : Tidy s) (hq : s.requests r = some q) (hsent : q.stage = .sent)
    (hc : ∃ c retry, q.cause = .authed .logout c retry)
    (hguard : canActivate s.sessions q.accessToken = true) : Tidy (s.mark r q .admitted) := by
  have heq : (s.mark r q .admitted).requests = update s.requests r (some { q with stage := .admitted }) := rfl
  have hclosing (sid : Uuid) : (s.mark r q .admitted).Closing sid ↔ s.Closing sid :=
    closing_of_stages heq hq (fun hok => by cases hsent.symm.trans hok) fun hok => by cases hok
  have hrest {r' : ℕ} {t' : Token} (hb' : (s.mark r q .admitted).Bringing r' t') : s.Bringing r' t' :=
    bringing_of_update heq (fun _ hs => by cases hs) hb'
  constructor
  case held =>
    intro t' ht'
    have hheld := held_of_update heq rfl hq rfl (fun _ hs => by cases hs) (fun _ hs => by cases hs) ht'
    exact ⟨(h.held t' hheld).1.of_sessions rfl, fun r' t'' hb => (h.held t' hheld).2 r' t'' (hrest hb)⟩
  case bringing => exact fun r' t' hb => h.bringing r' t' (hrest hb)
  case cookie => exact fun k hk hc => (hclosing _).mpr (h.cookie k hk hc)
  case refreshing =>
    intro r' k hr hc
    rw [hclosing]
    exact h.refreshing r' k (refreshing_of_update heq (fun hs => by cases hs) hr) hc
  case closing => exact fun sid hc => h.closing sid ((hclosing sid).mp hc)
  case admitted =>
    intro r' q' hq' ha'
    rw [heq] at hq'
    by_cases hr : r' = r
    · subst hr
      rw [update_self] at hq'
      cases hq'
      simp only [canActivate, Option.any_eq_true, List.any_eq_true, decide_eq_true_eq] at hguard
      obtain ⟨t, ht, x, hx, hid, huser, -⟩ := hguard
      exact ⟨hc, t, ht, x, hx, hid, huser⟩
    · rw [update_of_ne hr] at hq'
      exact h.admitted r' q' hq' ha'

theorem keeps_append (rows rows' : List Session) : Keeps rows (rows ++ rows') :=
  fun x hx => ⟨x, List.mem_append_left _ hx, rfl, rfl, id⟩

theorem keeps_map {rows : List Session} {f : Session → Session} (hid : ∀ x, (f x).id = x.id)
    (huser : ∀ x, (f x).userId = x.userId)
    (hrevoked : ∀ x, x.revokedAt.isSome = true → (f x).revokedAt.isSome = true) : Keeps rows (rows.map f) :=
  fun x hx => ⟨f x, List.mem_map_of_mem hx, hid x, huser x, hrevoked x⟩

theorem Keeps.trans {a b c : List Session} (h : Keeps a b) (h' : Keeps b c) : Keeps a c := by
  intro x hx
  obtain ⟨y, hy, hyid, hyuser, hyrevoked⟩ := h x hx
  obtain ⟨z, hz, hzid, hzuser, hzrevoked⟩ := h' y hy
  exact ⟨z, hz, hzid.trans hyid, hzuser.trans hyuser, fun hx' => hzrevoked (hyrevoked hx')⟩

theorem keeps_rotated (rows : List Session) (x row : Session) (now : ℕ) :
    Keeps rows (rotated rows x row now) := by
  refine (keeps_append rows [row]).trans (keeps_map (fun y => ?_) (fun y => ?_) fun y hy => ?_)
  · split <;> rfl
  · split <;> rfl
  · split
    · rfl
    · exact hy

theorem keeps_closed (rows : List Session) (t : Token) (now : ℕ) :
    Keeps rows (rows.map fun x => if wanted t x then x.revoked now else x) := by
  refine keeps_map (fun y => ?_) (fun y => ?_) fun y hy => ?_
  · split <;> rfl
  · split <;> rfl
  · split
    · rfl
    · exact hy

theorem revoked_of_closed {rows : List Session} {x : Session} (hx : x ∈ rows) (hid : x.id = t.sid)
    (huser : x.userId = some t.sub) (now : ℕ) :
    ∃ y ∈ rows.map fun x => if wanted t x then x.revoked now else x,
      y.id = t.sid ∧ y.revokedAt.isSome = true := by
  refine ⟨_, List.mem_map_of_mem hx, ?_⟩
  split
  · exact ⟨hid, rfl⟩
  · rename_i hno
    refine ⟨hid, ?_⟩
    by_contra hlive
    rw [Bool.not_eq_true, Option.isSome_eq_false_iff] at hlive
    exact hno (by simp [wanted, ownedBy, hid, huser, hlive])

theorem Tidy.logout (h : Tidy s) (hq : s.requests r = some q) (ha : q.stage = .admitted)
    (ht : q.accessToken = some t) (now : ℕ) : Tidy (answer { s with
      sessions := s.sessions.map fun x => if wanted t x then x.revoked now else x
      closed := (s.sessions.filter (wanted t)).map (·.id) ++ s.closed } r q .ok) := by
  obtain ⟨hc, t', ht', x, hx, hid, huser⟩ := h.admitted r q hq ha
  cases ht.symm.trans ht'
  have hk := keeps_closed s.sessions t now
  have heq : Tab.requests (answer { s with
      sessions := s.sessions.map fun x => if wanted t x then x.revoked now else x
      closed := (s.sessions.filter (wanted t)).map (·.id) ++ s.closed } r q .ok) =
    update s.requests r (some { q with stage := .answered .ok }) := rfl
  have hnew : Closing (answer { s with
      sessions := s.sessions.map fun x => if wanted t x then x.revoked now else x
      closed := (s.sessions.filter (wanted t)).map (·.id) ++ s.closed } r q .ok) t.sid :=
    (closing_update heq).mpr (.inl ⟨hc, rfl, congrArg (Option.map Token.sid) ht⟩)
  have hclosing {sid : Uuid}
      (hsid : sid ∈ (s.sessions.filter (wanted t)).map (·.id) ++ s.closed) :
      sid = t.sid ∨ sid ∈ s.closed := by
    refine (List.mem_append.mp hsid).imp_left fun hmem => ?_
    obtain ⟨y, hy, rfl⟩ := List.mem_map.mp hmem
    have hw := (List.mem_filter.mp hy).2
    simp only [wanted, decide_eq_true_eq] at hw
    exact hw.1
  have hstill {sid : Uuid} (hs : s.Closing sid) : Closing (answer { s with
      sessions := s.sessions.map fun x => if wanted t x then x.revoked now else x
      closed := (s.sessions.filter (wanted t)).map (·.id) ++ s.closed } r q .ok) sid := by
    obtain ⟨r', q', hq', hc', ha', htoken⟩ := hs
    refine (closing_update heq).mpr (.inr ⟨r', ?_, q', hq', hc', ha', htoken⟩)
    rintro rfl
    cases hq.symm.trans hq'
    cases ha.symm.trans ha'
  have hrest {r' : ℕ} {t' : Token} (hb : Bringing (answer { s with
      sessions := s.sessions.map fun x => if wanted t x then x.revoked now else x
      closed := (s.sessions.filter (wanted t)).map (·.id) ++ s.closed } r q .ok) r' t') :
      s.Bringing r' t' :=
    bringing_of_update heq (fun _ hs => by cases hs) hb
  constructor
  case held =>
    intro t' hh
    have hheld := held_of_update heq rfl hq rfl (fun _ hs => by cases hs) (fun _ hs => by cases hs) hh
    obtain ⟨⟨z, hz, hzid⟩, hno⟩ := h.held t' hheld
    obtain ⟨y, hy, hyid, -⟩ := hk z hz
    exact ⟨⟨y, hy, hyid.trans hzid⟩, fun r' t'' hb => hno r' t'' (hrest hb)⟩
  case bringing =>
    intro r' t' hb hclosed
    rcases hclosing hclosed with hsid | hclosed
    · exact (h.held t (.inr ⟨r, q, hq, .inl ht⟩)).2 r' t' (hrest hb) hsid
    · exact h.bringing r' t' (hrest hb) hclosed
  case cookie =>
    intro k hk hclosed
    rcases hclosing hclosed with hsid | hclosed
    · exact hsid ▸ hnew
    · exact hstill (h.cookie k hk hclosed)
  case refreshing =>
    intro r' k hr hclosed
    rcases hclosing hclosed with hsid | hclosed
    · exact hsid ▸ hnew
    · exact hstill (h.refreshing r' k (refreshing_of_update heq (fun hs => by cases hs) hr) hclosed)
  case closing =>
    intro sid hsid
    rcases (closing_update heq).mp hsid with ⟨-, -, htoken⟩ | ⟨r', -, hold⟩
    · have hsid : t.sid = sid := by simpa [ht] using htoken
      exact hsid ▸ revoked_of_closed hx hid huser now
    · obtain ⟨z, hz, hzid, hrevoked⟩ := h.closing sid ⟨r', hold⟩
      obtain ⟨y, hy, hyid, -, hstill⟩ := hk z hz
      exact ⟨y, hy, hyid.trans hzid, hstill hrevoked⟩
  case admitted =>
    intro r' q' hq' ha'
    obtain ⟨hc', t', ht', z, hz, hzid, hzuser⟩ :=
      h.admitted r' q' (admitted_update heq (fun h => by cases h) hq' ha') ha'
    obtain ⟨y, hy, hyid, hyuser, -⟩ := hk z hz
    exact ⟨hc', t', ht', y, hy, hyid.trans hzid, hyuser.trans hzuser⟩

theorem Tidy.handled (h : Tidy s) (hs : Honest s) (hq : s.requests r = some q) {row : Session} {now : ℕ}
    (hh : Handled s r q row now s') (hno : s'.swept = false) : Tidy s' := by
  cases hh with
  | admitted hsent hc hguard => exact h.admit hq hsent hc hguard
  | @turned a hstage ha hok =>
    refine h.calmer (calmer_mark hq (fun heq => ?_) (fun heq => ?_) (fun heq => (by cases heq))
      (fun heq => (by cases heq)) (fun t heq => ?_) fun t ht => ?_)
    · rcases hstage with hstage | hstage <;> cases hstage.symm.trans heq
    · cases heq
      obtain ⟨c, retry, hc⟩ := hok rfl
      intro c' retry' hc'
      cases hc.symm.trans hc'
    · cases heq
      exact ha t rfl
    · rcases ht with ht | ht <;> cases ht
  | login hc hsent hrow => exact h.opens hs hq hsent hrow rfl (keeps_append _ _)
  | reused => cases hno
  | rotated hc hsent hk hx hid hrow => exact h.opens hs hq hsent hrow rfl (keeps_rotated _ _ _ _)
  | logout ha ht => exact h.logout hq ha ht now

theorem Tidy.step (h : Tidy s) (hs : Honest s) (hapart : Apart s) (hu : Unreplayed s')
    (hstep : step false s l = some s') : Tidy s' := by
  cases step_cases hstep with
  | loginWithPassword hr => exact h.calmer (calmer_send hr _ fun _ ht => (by cases ht))
  | refreshAccessToken hr => exact h.calmer (calmer_refreshAccessToken hr)
  | fetchCurrentSession hr => exact h.calmer (calmer_authedRequest hr _ _)
  | restoreSession hr => exact h.calmer (calmer_restoreSession hr _)
  | logoutSession hr => exact h.calmer (calmer_authedRequest hr _ _)
  | serve hq hserved =>
    have hserved := h.handled hs hq (serve_cases hserved) hu.swept
    exact hserved.calmer (.of_same rfl rfl rfl rfl fun _ ht => .inl ht)
  | arrive hq ha => exact h.arrive hs hapart hq ha
  | lose _ hl => cases hl
  | @resume r new q a hq ha hnew =>
    have hmark : Calmer s (s.mark r q (.settled a)) := by
      refine calmer_mark hq (fun heq => ?_) (fun heq => (by cases heq)) (fun heq => (by cases heq))
        (fun heq => (by cases heq)) (fun _ heq => (by cases heq)) fun t ht => ?_
      · cases ha.symm.trans heq
      · rcases ht with ht | ht <;> cases ht
        exact .inr ⟨r, q, hq, .inr (.inl ha)⟩
    have hne : new ≠ r := by
      rintro rfl
      cases hq.symm.trans hnew
    refine h.calmer (hmark.trans (calmer_settle ((update_of_ne hne _ _).trans hnew) q ?_))
    rintro t rfl
    exact .inr ⟨r, _, update_self .., .inr (.inr rfl)⟩
  | wake _ hnew => exact h.calmer (calmer_wake hnew _ _ _ _)
  | refreshSettled => exact h.calmer (.of_same rfl rfl rfl rfl fun _ ht => .inl ht)
  | restoreSettled => exact h.calmer (.of_same rfl rfl rfl rfl fun _ ht => .inl ht)

theorem Loaded.tidy (h : Loaded s) : Tidy s := by
  have hno {r : ℕ} {q : Request} (hq : s.requests r = some q) : False := by
    cases (h.requests r).symm.trans hq
  constructor
  case held =>
    rintro t (ht | ⟨r, q, hq, -⟩)
    · cases h.accessToken.symm.trans ht
    · exact (hno hq).elim
  case bringing => exact fun r t ⟨q, hq, _⟩ => (hno hq).elim
  case cookie =>
    intro k _ hclosed
    rw [h.closed] at hclosed
    cases hclosed
  case refreshing => exact fun r k ⟨q, hq, _⟩ => (hno hq).elim
  case closing => exact fun sid ⟨r, q, hq, _⟩ => (hno hq).elim
  case admitted => exact fun r q hq => (hno hq).elim

/-! Reuse detection. -/

theorem Apart.open (h : Tidy s) (ha : Apart s) {k : Token} (hr : s.Refreshing r k) : k.sid ∉ s.closed :=
  fun hclosed => ha r k hr (h.refreshing r k hr hclosed)

theorem Silent.unreplayed_step (h : Silent s) (hstep : step false s l = some s') : Unreplayed s' := by
  rcases step_record hstep with hsame | ⟨r, v, row, now, -, rfl, -⟩
  · exact ⟨hsame.replayed.trans h.1.replayed, hsame.swept.trans h.1.swept⟩
  · exact h.2 r v row now s' hstep

theorem silent_iff_apart (hu : Unreplayed s) (hs : Honest s) (h : Tidy s) : Silent s ↔ Apart s := by
  constructor
  · rintro ⟨-, hnext⟩ r k hr hclosing
    obtain ⟨x, hx, hid, hrevoked⟩ := h.closing k.sid hclosing
    obtain ⟨q, hq, hc, hsent, hk⟩ := hr
    have hreplays : s.replays q = true := replays_eq_true.mpr ⟨hsent, hc, k, hk, x, hx, hid, hrevoked⟩
    -- whatever the server makes of the request
    have hserve : step false s (.serve r .deny (sampleSession 0) 0) =
        some { s.answer r q .unauthorized with replayed := s.replayed || s.replays q } := by
      simp [Tab.step, hq, serve, hsent]
    have hno := (hnext r .deny _ 0 _ hserve).replayed
    simp [hreplays] at hno
  · refine fun ha => ⟨hu, fun r v row now s' hstep => ?_⟩
    rcases step_record hstep with hsame | ⟨r', v', row', now', q, -, hq, hreplayed, hswept⟩
    · exact ⟨hsame.replayed.trans hu.replayed, hsame.swept.trans hu.swept⟩
    · have hno : s.replays q = false := (replays_iff hs hq).mpr fun k hr => ha.open h hr
      refine ⟨by rw [hreplayed, hu.replayed, hno]; rfl, ?_⟩
      rcases hswept with hswept | hyes
      · exact hswept.trans hu.swept
      · cases hno.symm.trans hyes

/-- Without lost messages, reuse detection stays silent throughout a run exactly when no refresh is ever
on its way to the server together with the answer to a logout of its session: that the cookie is never one
that has been rotated, and none that a logout has closed before, is what the tab and the server see to. -/
theorem unreplayed_always_iff (h : Loaded s₀) (hr : run (step false) s₀ es = some s) :
    (∀ u, Visits (step false) s₀ es u → Silent u) ↔ ∀ u, Visits (step false) s₀ es u → Apart u := by
  apply visits_iff (I := fun u => Unreplayed u ∧ Honest u ∧ Tidy u) ?_ ?_
    ⟨h.toUnreplayed, h.honest, h.tidy⟩ hr
  · rintro u l u' hstep ⟨hu, hhonest, htidy⟩ hsilent hapart
    have hu' := hsilent.unreplayed_step hstep
    exact ⟨hu', honest_keeps u l u' hstep (fun _ => hhonest) hu', htidy.step hhonest hapart hu' hstep⟩
  · rintro u ⟨hu, hhonest, htidy⟩
    exact silent_iff_apart hu hhonest htidy

/-! A tab that nobody logs out of. -/

structure Staying (s : Tab) : Prop where
  requests : ∀ r q, s.requests r = some q → ∀ c retry, q.cause ≠ .authed .logout c retry
  calls : ∀ c path retry r, s.calls c = some (.waiting path retry r) → path = .me

theorem Staying.apart (h : Staying s) : Apart s := by
  rintro r k - ⟨r', q, hq, ⟨c, retry, hc⟩, -⟩
  exact h.requests r' q hq c retry hc

theorem Staying.of_same (h : Staying s) (hrequests : s'.requests = s.requests) (hcalls : s'.calls = s.calls) :
    Staying s' :=
  ⟨hrequests ▸ h.requests, hcalls ▸ h.calls⟩

theorem Staying.update (h : Staying s) {new : Request} (heq : s'.requests = update s.requests r (some new))
    (hcalls : s'.calls = s.calls) (hc : ∀ c retry, new.cause ≠ .authed .logout c retry) : Staying s' := by
  refine ⟨fun r' q hq => ?_, hcalls ▸ h.calls⟩
  rw [heq] at hq
  by_cases hr : r' = r
  · subst hr
    rw [update_self] at hq
    cases hq
    exact hc
  · rw [update_of_ne hr] at hq
    exact h.requests r' q hq

theorem Staying.setCall (h : Staying s) (c : ℕ) {call : AuthedCall}
    (hcall : ∀ path retry r, call = .waiting path retry r → path = .me) : Staying (s.setCall c call) := by
  refine ⟨h.requests, fun c' path retry r hc' => ?_⟩
  have heq : Function.update s.calls c (some call) c' = some (.waiting path retry r) := hc'
  by_cases hc : c' = c
  · rw [hc, update_self] at heq
    exact hcall path retry r (Option.some.inj heq)
  · rw [update_of_ne hc] at heq
    exact h.calls c' path retry r heq

theorem Staying.refreshAccessToken (h : Staying s) (r : ℕ) : Staying (s.refreshAccessToken r) := by
  rw [Tab.refreshAccessToken]
  split
  · exact h
  · exact h.update rfl rfl fun _ _ hc => (by cases hc)

theorem Staying.awaitRefresh (h : Staying s) (c r : ℕ) (retry : Bool) :
    Staying (s.awaitRefresh c r .me retry) :=
  (h.refreshAccessToken r).setCall c fun _ _ _ heq => (by cases heq; rfl)

theorem Staying.attempt (h : Staying s) (c r : ℕ) (retry : Bool) : Staying (s.attempt c r .me retry) := by
  have hsent : Staying (s.send r (.authed .me c retry) s.accessToken) :=
    h.update rfl rfl fun _ _ hc => (by cases hc)
  exact hsent.setCall c fun _ _ _ heq => (by cases heq)

theorem Staying.authedRequest (h : Staying s) (c r : ℕ) : Staying (s.authedRequest c r .me) := by
  rw [Tab.authedRequest]
  split
  · exact h.attempt c r false
  · exact h.awaitRefresh c r false

theorem Staying.restoreSession (h : Staying s) (c r : ℕ) : Staying (s.restoreSession c r) := by
  rw [Tab.restoreSession]
  split
  · exact h
  · exact (h.authedRequest c r).of_same rfl rfl

theorem Staying.finish (h : Staying s) (c : ℕ) : Staying (s.finish c .me) :=
  h.setCall c fun _ _ _ heq => (by cases heq)

theorem Staying.settle (h : Staying s) (hc : ∀ c retry, q.cause ≠ .authed .logout c retry) (a : Answer) :
    Staying (s.settle q a r) := by
  rw [Tab.settle.eq_def]
  split
  · exact h.of_same rfl rfl
  · exact h
  · exact h.of_same rfl rfl
  · exact h.of_same rfl rfl
  · exact h
  · rename_i path c heq
    have hcleared : Staying (s.clearSession.refused q.accessToken) := h.of_same rfl rfl
    cases path with
    | me => exact hcleared.awaitRefresh c r true
    | logout => exact absurd heq (hc c false)
  · rename_i path c heq
    have hrefused : Staying (s.refused q.accessToken) := h.of_same rfl rfl
    cases path with
    | me => exact hrefused.finish c
    | logout => exact absurd heq (hc c true)
  · rename_i path c retry heq _ _
    cases path with
    | me => exact h.finish c
    | logout => exact absurd heq (hc c retry)

theorem Staying.handled (h : Staying s) (hq : s.requests r = some q) {row : Session} {now : ℕ}
    (hh : Handled s r q row now s') : Staying s' := by
  have hc := h.requests r q hq
  cases hh <;> exact h.update rfl rfl hc

theorem Staying.step (h : Staying s) (hl : ∀ c r, l ≠ .logoutSession c r)
    (hstep : step false s l = some s') : Staying s' := by
  cases step_cases hstep with
  | loginWithPassword => exact h.update rfl rfl fun _ _ hc => (by cases hc)
  | refreshAccessToken => exact h.refreshAccessToken _
  | fetchCurrentSession => exact h.authedRequest _ _
  | restoreSession => exact h.restoreSession _ _
  | logoutSession => exact absurd rfl (hl _ _)
  | serve hq hserved => exact (h.handled hq (serve_cases hserved)).of_same rfl rfl
  | @arrive r q a hq =>
    have hmark : Staying (s.mark r q (.arrived a)) := h.update rfl rfl (h.requests r q hq)
    rw [Tab.setCookie.eq_def]
    split
    · exact hmark.of_same rfl rfl
    · split
      · exact hmark.of_same rfl rfl
      · exact hmark
    · exact hmark
  | @lose r q hq => exact h.update rfl rfl (h.requests r q hq)
  | @resume r new q a hq =>
    have hmark : Staying (s.mark r q (.settled a)) := h.update rfl rfl (h.requests r q hq)
    exact hmark.settle (h.requests r q hq) a
  | @wake c new r path retry a hc =>
    cases h.calls c path retry r hc
    cases a with
    | tokens t => exact h.attempt c new retry
    | ok | unauthorized | failed => exact h.finish c
  | refreshSettled => exact h.of_same rfl rfl
  | restoreSettled => exact h.of_same rfl rfl

theorem apart_of_stay (h : Opened s₀) (hno : ∀ l ∈ es, ∀ c r, l ≠ .logoutSession c r) :
    ∀ u, Visits (step false) s₀ es u → Apart u := by
  rintro u ⟨pre, hpre, hr⟩
  have hstart : Staying s₀ := by
    refine ⟨fun r q hq => ?_, fun c path retry r hc => ?_⟩
    · cases (h.requests r).symm.trans hq
    · cases (h.calls c).symm.trans hc
  have hrun : Throughout (step false) (fun _ l => ∀ c r, l ≠ .logoutSession c r) s₀ pre :=
    .of_forall fun l hl _ => hno l (hpre.subset hl)
  exact (hrun.run (fun _ _ _ hstep hl hs => Staying.step hs hl hstep) hr hstart).apart

def restored : Tab := opened (some ⟨.ofNat 2, .ofNat 1, .ofNat 2⟩) [sampleSession 2]

theorem loaded_restored : Loaded restored where
  toOpened := opened_opened _ _
  replayed := rfl
  swept := rfl
  cookie := by
    intro k hk
    cases hk
    refine ⟨⟨sampleSession 2, List.mem_singleton_self _, rfl⟩, fun x hx _ => ?_⟩
    cases List.mem_singleton.mp hx
    rfl
  closed := rfl

def restoreRun : List Label :=
  .restoreSession 0 0 :: answered 0 3 ++ [.resume 0 9, .refreshSettled, .wake 0 1]

theorem restore_unreplayed : ∃ s, run (step false) restored restoreRun = some s ∧
    s.hasAccessToken = true ∧ ∀ u, Visits (step false) restored restoreRun u → Silent u := by
  have hrun : (run (step false) restored restoreRun).map hasAccessToken = some true := by
    decide +kernel
  obtain ⟨s, hs, htoken⟩ := Option.map_eq_some_iff.mp hrun
  refine ⟨s, hs, htoken, (unreplayed_always_iff loaded_restored hs).mpr
    (apart_of_stay loaded_restored.toOpened fun l hl => ?_)⟩
  simp only [restoreRun, answered, List.cons_append, List.nil_append, List.mem_cons,
    List.not_mem_nil, or_false] at hl
  rintro c r rfl
  simp at hl

def logoutRaceRun : List Label :=
  restoreRun ++ .logoutSession 1 2 :: .serve 2 .process (sampleSession 3) 0 ::
    .serve 2 .process (sampleSession 3) 0 :: answered 1 4 ++ .resume 1 4 :: answered 4 5

/-- The 401 that a logout brings to a request beside it starts a refresh with the cookie of the session
that it has closed. -/
theorem logout_race_replays : ∃ s, run (step false) restored logoutRaceRun = some s ∧
    s.replayed = true ∧ s.swept = true := by
  have hrun : (run (step false) restored logoutRaceRun).map (fun s => (s.replayed, s.swept)) =
      some (true, true) := by decide +kernel
  obtain ⟨s, hs, heq⟩ := Option.map_eq_some_iff.mp hrun
  exact ⟨s, hs, (Prod.mk.inj heq).1, (Prod.mk.inj heq).2⟩

end JitoGame.Web.Tab
