import JitoGame.Web.Interleaving

namespace JitoGame.Web.Tab

open Auth Function Traces

variable {s s' s₀ : Tab} {l : Label} {es : List Label} {r r' : ℕ} {q : Request} {t k : Token}
variable {sid : Uuid} {stage : Stage}

/-! What is on its way. -/

-- a refresh that has yet to reach the server
def Refreshing (s : Tab) (r : ℕ) (k : Token) : Prop :=
  ∃ q, s.requests r = some q ∧ q.cause = .refresh ∧ q.stage = .sent ∧ q.cookie = some k

-- an answer that has yet to reach the tab
def Bringing (s : Tab) (r : ℕ) (t : Token) : Prop :=
  ∃ q, s.requests r = some q ∧ q.stage = .answered (.tokens t)

def Unsettled (s : Tab) (r : ℕ) : Prop :=
  ∃ q, s.requests r = some q ∧ q.cause = .refresh ∧ ∀ a, q.stage ≠ .settled a

def Known (s : Tab) (sid : Uuid) : Prop := ∃ x ∈ s.sessions, x.id = sid

structure Unspent (s : Tab) (sid : Uuid) : Prop where
  known : s.Known sid
  closed : ∀ x ∈ s.sessions, x.id = sid → x.revokedAt.isSome = true → sid ∈ s.closed

/-- The tab rotates its sessions one at a time, and uses no refresh token twice. -/
structure Honest (s : Tab) : Prop where
  single : ∀ r, s.Unsettled r → s.refreshInFlight = some r
  known : ∀ k, s.cookie = some k → s.Known k.sid
  cookie : ∀ k, s.cookie = some k → s.Unspent k.sid ∨ ∃ r t, s.Bringing r t ∧ s.Unsettled r
  refreshing : ∀ r k, s.Refreshing r k → s.Unspent k.sid
  bringing : ∀ r t, s.Bringing r t → s.Unspent t.sid
  newCookie : ∀ r t k, s.Bringing r t → s.cookie = some k → k.sid ≠ t.sid
  newSession : ∀ r t r' k, s.Bringing r t → s.Refreshing r' k → k.sid ≠ t.sid
  distinct : ∀ r t r' t', s.Bringing r t → s.Bringing r' t' → r ≠ r' → t.sid ≠ t'.sid
  closed : ∀ sid ∈ s.closed, ∃ x ∈ s.sessions, x.id = sid ∧ x.revokedAt.isSome = true

theorem Refreshing.unsettled (h : s.Refreshing r k) : s.Unsettled r := by
  obtain ⟨q, hq, hc, hsent, -⟩ := h
  exact ⟨q, hq, hc, fun a ha => by cases hsent.symm.trans ha⟩

structure Quieter (s s' : Tab) : Prop where
  refreshInFlight : s'.refreshInFlight = s.refreshInFlight
  cookie : s'.cookie = s.cookie
  sessions : s'.sessions = s.sessions
  closed : s'.closed = s.closed
  unsettled : ∀ r, s'.Unsettled r → s.Unsettled r
  refreshing : ∀ r k, s'.Refreshing r k → s.Refreshing r k
  bringing : ∀ r t, s'.Bringing r t → s.Bringing r t
  rotating : ∀ r t, s.Bringing r t → s.Unsettled r → s'.Bringing r t ∧ s'.Unsettled r

theorem Known.of_sessions (h : s.Known sid) (heq : s'.sessions = s.sessions) : s'.Known sid := by
  obtain ⟨x, hx, hid⟩ := h
  exact ⟨x, heq ▸ hx, hid⟩

theorem Unspent.of_sessions (h : s.Unspent sid) (heq : s'.sessions = s.sessions)
    (hclosed : s'.closed = s.closed) : s'.Unspent sid := by
  refine ⟨h.known.of_sessions heq, fun x hx hid hrevoked => ?_⟩
  rw [hclosed]
  exact h.closed x (heq ▸ hx) hid hrevoked

theorem Honest.quieter (h : Honest s) (hs : Quieter s s') : Honest s' where
  single r hr := hs.refreshInFlight.trans (h.single r (hs.unsettled r hr))
  known k hk := (h.known k (hs.cookie.symm.trans hk)).of_sessions hs.sessions
  cookie k hk := by
    rcases h.cookie k (hs.cookie.symm.trans hk) with hu | ⟨r, t, hb, hr⟩
    · exact .inl (hu.of_sessions hs.sessions hs.closed)
    · exact .inr ⟨r, t, hs.rotating r t hb hr⟩
  refreshing r k hr := (h.refreshing r k (hs.refreshing r k hr)).of_sessions hs.sessions hs.closed
  bringing r t hb := (h.bringing r t (hs.bringing r t hb)).of_sessions hs.sessions hs.closed
  newCookie r t k hb hk := h.newCookie r t k (hs.bringing r t hb) (hs.cookie.symm.trans hk)
  newSession r t r' k hb hr := h.newSession r t r' k (hs.bringing r t hb) (hs.refreshing r' k hr)
  distinct r t r' t' hb hb' := h.distinct r t r' t' (hs.bringing r t hb) (hs.bringing r' t' hb')
  closed sid hsid := by
    rw [hs.sessions]
    exact h.closed sid (hs.closed ▸ hsid)

theorem Quieter.of_same (hrefresh : s'.refreshInFlight = s.refreshInFlight)
    (hcookie : s'.cookie = s.cookie) (hrequests : s'.requests = s.requests)
    (hsessions : s'.sessions = s.sessions) (hclosed : s'.closed = s.closed) : Quieter s s' := by
  refine ⟨hrefresh, hcookie, hsessions, hclosed, ?_, ?_, ?_, ?_⟩ <;>
    simp only [Unsettled, Refreshing, Bringing, hrequests]
  · exact fun _ h => h
  · exact fun _ _ h => h
  · exact fun _ _ h => h
  · exact fun _ _ h h' => ⟨h, h'⟩

section Update

variable {new : Request}

theorem exists_update {f : ℕ → Option Request} {φ : Request → Prop} :
    (∃ q, update f r (some new) r' = some q ∧ φ q) ↔
      (r' = r ∧ φ new) ∨ (r' ≠ r ∧ ∃ q, f r' = some q ∧ φ q) := by
  by_cases hr : r' = r
  · subst hr
    simp [update_self]
  · simp [hr]

variable (heq : s'.requests = update s.requests r (some new))
include heq

theorem unsettled_update : s'.Unsettled r' ↔
    (r' = r ∧ new.cause = .refresh ∧ ∀ a, new.stage ≠ .settled a) ∨ (r' ≠ r ∧ s.Unsettled r') := by
  rw [Unsettled, heq]
  exact exists_update

theorem refreshing_update : s'.Refreshing r' k ↔
    (r' = r ∧ new.cause = .refresh ∧ new.stage = .sent ∧ new.cookie = some k) ∨
      (r' ≠ r ∧ s.Refreshing r' k) := by
  rw [Refreshing, heq]
  exact exists_update

theorem bringing_update : s'.Bringing r' t ↔
    (r' = r ∧ new.stage = .answered (.tokens t)) ∨ (r' ≠ r ∧ s.Bringing r' t) := by
  rw [Bringing, heq]
  exact exists_update

theorem Quieter.update (hrefresh : s'.refreshInFlight = s.refreshInFlight)
    (hcookie : s'.cookie = s.cookie) (hsessions : s'.sessions = s.sessions)
    (hclosed : s'.closed = s.closed)
    (hset : new.cause = .refresh → (∀ a, new.stage ≠ .settled a) → s.Unsettled r)
    (hsent : new.cause = .refresh → new.stage ≠ .sent)
    (hnew : ∀ t, new.stage ≠ .answered (.tokens t)) (hold : ∀ t, ¬ s.Bringing r t) : Quieter s s' where
  refreshInFlight := hrefresh
  cookie := hcookie
  sessions := hsessions
  closed := hclosed
  unsettled r' hu := by
    rcases (unsettled_update heq).mp hu with ⟨rfl, hc, hu⟩ | ⟨-, hu⟩
    · exact hset hc hu
    · exact hu
  refreshing r' k hr := by
    rcases (refreshing_update heq).mp hr with ⟨rfl, hc, hs, -⟩ | ⟨-, hr⟩
    · exact absurd hs (hsent hc)
    · exact hr
  bringing r' t hb := by
    rcases (bringing_update heq).mp hb with ⟨rfl, hs⟩ | ⟨-, hb⟩
    · exact absurd hs (hnew t)
    · exact hb
  rotating r' t hb hu := by
    have hr : r' ≠ r := by
      rintro rfl
      exact hold t hb
    exact ⟨(bringing_update heq).mpr (.inr ⟨hr, hb⟩), (unsettled_update heq).mpr (.inr ⟨hr, hu⟩)⟩

end Update

theorem not_bringing (hq : s.requests r = some q) (hs : ∀ t, q.stage ≠ .answered (.tokens t))
    (t : Token) : ¬ s.Bringing r t := by
  rintro ⟨q', hq', ha⟩
  cases hq.symm.trans hq'
  exact hs t ha

theorem not_bringing_of_none (hr : s.requests r = none) (t : Token) : ¬ s.Bringing r t := by
  rintro ⟨q, hq, -⟩
  cases hr.symm.trans hq

theorem not_unsettled_of_none (hr : s.requests r = none) : ¬ s.Unsettled r := by
  rintro ⟨q, hq, -⟩
  cases hr.symm.trans hq

theorem Honest.mark (h : Honest s) (hq : s.requests r = some q) (hsent : stage ≠ .sent)
    (hnew : ∀ t, stage ≠ .answered (.tokens t)) (hold : ∀ t, q.stage ≠ .answered (.tokens t))
    (hset : ∀ a, q.stage ≠ .settled a) : Honest (s.mark r q stage) :=
  h.quieter (.update rfl rfl rfl rfl rfl (fun hc _ => ⟨q, hq, hc, hset⟩) (fun _ => hsent) hnew
    (not_bringing hq hold))

/-! The tab. -/

theorem Honest.send (h : Honest s) (hr : s.requests r = none) {cause : Cause} (hc : cause ≠ .refresh)
    (accessToken : Option Token) : Honest (s.send r cause accessToken) :=
  h.quieter (.update rfl rfl rfl rfl rfl (fun hc' => absurd hc' hc) (fun hc' => absurd hc' hc)
    (fun _ heq => (by cases heq)) (not_bringing_of_none hr))

/-- A refresh is only sent when none is under way, so the cookie has not been used before. -/
theorem Honest.refreshAccessToken (h : Honest s) (hr : s.requests r = none) :
    Honest (s.refreshAccessToken r) := by
  rw [Tab.refreshAccessToken]
  split
  · exact h
  · rename_i hnone
    have hidle (r' : ℕ) : ¬ s.Unsettled r' := fun hu => by
      cases hnone.symm.trans (h.single r' hu)
    have heq : Tab.requests { s.send r .refresh none with refreshInFlight := some r } =
        update s.requests r (some ⟨.refresh, none, s.cookie, s.clock, .sent⟩) := rfl
    have hbring {r' : ℕ} {t : Token}
        (hb : Bringing { s.send r .refresh none with refreshInFlight := some r } r' t) :
        s.Bringing r' t := by
      rcases (bringing_update heq).mp hb with ⟨-, hs⟩ | ⟨-, hb⟩
      · cases hs
      · exact hb
    have hcookie (k : Token) (hk : s.cookie = some k) : s.Unspent k.sid := by
      rcases h.cookie k hk with hu | ⟨r', t, -, hu⟩
      · exact hu
      · exact absurd hu (hidle r')
    constructor
    case single =>
      intro r' hu
      rcases (unsettled_update heq).mp hu with ⟨rfl, -⟩ | ⟨-, hu⟩
      · rfl
      · exact absurd hu (hidle r')
    case known => exact fun k hk => (h.known k hk).of_sessions rfl
    case cookie => exact fun k hk => .inl ((hcookie k hk).of_sessions rfl rfl)
    case refreshing =>
      intro r' k hr'
      rcases (refreshing_update heq).mp hr' with ⟨-, -, -, hk⟩ | ⟨-, hr'⟩
      · exact (hcookie k hk).of_sessions rfl rfl
      · exact absurd hr'.unsettled (hidle r')
    case bringing => exact fun r' t hb => (h.bringing r' t (hbring hb)).of_sessions rfl rfl
    case newCookie => exact fun r' t k hb hk => h.newCookie r' t k (hbring hb) hk
    case newSession =>
      intro r' t r'' k hb hr'
      rcases (refreshing_update heq).mp hr' with ⟨-, -, -, hk⟩ | ⟨-, hr'⟩
      · exact h.newCookie r' t k (hbring hb) hk
      · exact absurd hr'.unsettled (hidle r'')
    case distinct => exact fun r' t r'' t' hb hb' => h.distinct r' t r'' t' (hbring hb) (hbring hb')
    case closed => exact h.closed

theorem Honest.awaitRefresh (h : Honest s) (hr : s.requests r = none) (c : ℕ) (path : AuthedPath)
    (retry : Bool) : Honest (s.awaitRefresh c r path retry) :=
  (h.refreshAccessToken hr).quieter (.of_same rfl rfl rfl rfl rfl)

theorem Honest.attempt (h : Honest s) (hr : s.requests r = none) (c : ℕ) (path : AuthedPath)
    (retry : Bool) : Honest (s.attempt c r path retry) :=
  (h.send hr (fun heq => (by cases heq)) s.accessToken).quieter (.of_same rfl rfl rfl rfl rfl)

theorem Honest.authedRequest (h : Honest s) (hr : s.requests r = none) (c : ℕ) (path : AuthedPath) :
    Honest (s.authedRequest c r path) := by
  rw [Tab.authedRequest]
  split
  · exact h.attempt hr c path false
  · exact h.awaitRefresh hr c path false

theorem Honest.restoreSession (h : Honest s) (hr : s.requests r = none) (c : ℕ) :
    Honest (s.restoreSession c r) := by
  rw [Tab.restoreSession]
  split
  · exact h
  · exact (h.authedRequest hr c .me).quieter (.of_same rfl rfl rfl rfl rfl)

theorem Honest.finish (h : Honest s) (c : ℕ) (path : AuthedPath) : Honest (s.finish c path) := by
  cases path <;> exact h.quieter (.of_same rfl rfl rfl rfl rfl)

theorem Honest.wake (h : Honest s) (hr : s.requests r = none) (c : ℕ) (path : AuthedPath)
    (retry : Bool) (a : Answer) : Honest (s.wake c r path retry a) := by
  cases a with
  | tokens t => exact h.attempt hr c path retry
  | ok | unauthorized | failed => exact h.finish c path

theorem Honest.settle (h : Honest s) (hr : s.requests r = none) (q : Request) (a : Answer) :
    Honest (s.settle q a r) := by
  rw [Tab.settle.eq_def]
  split
  · exact h.quieter (.of_same rfl rfl rfl rfl rfl)
  · exact h
  · exact h.quieter (.of_same rfl rfl rfl rfl rfl)
  · exact h.quieter (.of_same rfl rfl rfl rfl rfl)
  · exact h
  · have hcleared : Honest (s.clearSession.refused q.accessToken) :=
      h.quieter (.of_same rfl rfl rfl rfl rfl)
    exact hcleared.awaitRefresh hr _ _ true
  · have hrefused : Honest (s.refused q.accessToken) := h.quieter (.of_same rfl rfl rfl rfl rfl)
    exact hrefused.finish _ _
  · exact h.finish _ _

theorem Honest.refreshSettled (h : Honest s) (hr : s.refreshInFlight = some r)
    (hq : s.requests r = some q) {a : Answer} (ha : q.stage = .settled a) :
    Honest { s with refreshInFlight := none } where
  single r' hu := by
    have heq := h.single r' hu
    cases hr.symm.trans heq
    obtain ⟨q', hq', -, hs⟩ := hu
    cases hq.symm.trans hq'
    exact absurd ha (hs a)
  known := h.known
  cookie k hk := (h.cookie k hk).imp (fun hu => hu.of_sessions rfl rfl) id
  refreshing r' k hr' := (h.refreshing r' k hr').of_sessions rfl rfl
  bringing r' t hb := (h.bringing r' t hb).of_sessions rfl rfl
  newCookie := h.newCookie
  newSession := h.newSession
  distinct := h.distinct
  closed := h.closed

/-! The cookie jar. -/

theorem Honest.dropCookie (h : Honest s) : Honest { s with cookie := none } where
  single := h.single
  known _ hk := by cases hk
  cookie _ hk := by cases hk
  refreshing r' k hr := (h.refreshing r' k hr).of_sessions rfl rfl
  bringing r' t hb := (h.bringing r' t hb).of_sessions rfl rfl
  newCookie _ _ _ _ hk := by cases hk
  newSession := h.newSession
  distinct := h.distinct
  closed := h.closed

theorem Honest.keepCookie (h : Honest s) (hq : s.requests r = some q)
    (ha : q.stage = .answered (.tokens t)) :
    Honest { s.mark r q (.arrived (.tokens t)) with cookie := some t } := by
  have hb : s.Bringing r t := ⟨q, hq, ha⟩
  have heq : Tab.requests { s.mark r q (.arrived (.tokens t)) with cookie := some t } =
      update s.requests r (some { q with stage := .arrived (.tokens t) }) := rfl
  have hrest {r' : ℕ} {t' : Token}
      (hb' : Bringing { s.mark r q (.arrived (.tokens t)) with cookie := some t } r' t') :
      r' ≠ r ∧ s.Bringing r' t' := by
    rcases (bringing_update heq).mp hb' with ⟨-, hs⟩ | hold
    · cases hs
    · exact hold
  have hsent {r' : ℕ} {k : Token}
      (hr : Refreshing { s.mark r q (.arrived (.tokens t)) with cookie := some t } r' k) :
      s.Refreshing r' k := by
    rcases (refreshing_update heq).mp hr with ⟨-, -, hs, -⟩ | ⟨-, hr⟩
    · cases hs
    · exact hr
  constructor
  case single =>
    intro r' hu
    apply h.single r'
    rcases (unsettled_update heq).mp hu with ⟨rfl, hc, -⟩ | ⟨-, hu⟩
    · exact ⟨q, hq, hc, fun a hs => by cases ha.symm.trans hs⟩
    · exact hu
  case known =>
    intro k hk
    cases hk
    exact (h.bringing r t hb).known.of_sessions rfl
  case cookie =>
    intro k hk
    cases hk
    exact .inl ((h.bringing r t hb).of_sessions rfl rfl)
  case refreshing => exact fun r' k hr => (h.refreshing r' k (hsent hr)).of_sessions rfl rfl
  case bringing => exact fun r' t' hb' => (h.bringing r' t' (hrest hb').2).of_sessions rfl rfl
  case newCookie =>
    intro r' t' k hb' hk
    cases hk
    obtain ⟨hne, hold⟩ := hrest hb'
    exact h.distinct r t r' t' hb hold hne.symm
  case newSession => exact fun r' t' r'' k hb' hr => h.newSession r' t' r'' k (hrest hb').2 (hsent hr)
  case distinct =>
    exact fun r' t' r'' t'' hb' hb'' => h.distinct r' t' r'' t'' (hrest hb').2 (hrest hb'').2
  case closed => exact h.closed

theorem Honest.arrive (h : Honest s) (hq : s.requests r = some q) {a : Answer}
    (ha : q.stage = .answered a) : Honest ((s.mark r q (.arrived a)).setCookie q a) := by
  have hmark (hno : ∀ t, a ≠ .tokens t) : Honest (s.mark r q (.arrived a)) := by
    refine h.mark hq (fun heq => (by cases heq)) (fun _ heq => (by cases heq)) (fun t heq => ?_)
      fun _ heq => by cases ha.symm.trans heq
    cases ha.symm.trans heq
    exact hno t rfl
  cases a with
  | tokens t => exact h.keepCookie hq ha
  | unauthorized | failed => exact hmark fun _ heq => (by cases heq)
  | ok =>
    rw [Tab.setCookie]
    split
    · exact (hmark fun _ heq => (by cases heq)).dropCookie
    · exact hmark fun _ heq => (by cases heq)

/-! The server. -/

theorem opens_fresh {row : Session} (hrow : opens s.sessions row = true) : ¬ s.Known row.id := by
  rintro ⟨x, hx, hid⟩
  simp only [opens, Bool.decide_and, Bool.and_eq_true, decide_eq_true_eq, List.all_eq_true] at hrow
  exact hrow.1 x hx hid

theorem opens_live {row : Session} (hrow : opens s.sessions row = true) : row.revokedAt = none := by
  simp only [opens, Bool.decide_and, Bool.and_eq_true, decide_eq_true_eq] at hrow
  exact hrow.2.1

theorem Honest.brings (h : Honest s) (hq : s.requests r = some q) (hsent : q.stage = .sent)
    {sessions : List Session} (hfresh : ¬ s.Known t.sid) (hnew : Unspent { s with sessions } t.sid)
    (hknown : ∀ sid, s.Known sid → Known { s with sessions } sid)
    (hkept : ∀ sid, s.Unspent sid → Unspent { s with sessions } sid ∨
      (q.cause = .refresh ∧ q.cookie.map Token.sid = some sid))
    (hclosed : ∀ sid ∈ s.closed, ∃ x ∈ sessions, x.id = sid ∧ x.revokedAt.isSome = true) :
    Honest (answer { s with sessions } r q (.tokens t)) := by
  have heq : Tab.requests (answer { s with sessions } r q (.tokens t)) =
      update s.requests r (some { q with stage := .answered (.tokens t) }) := rfl
  have hself : Bringing (answer { s with sessions } r q (.tokens t)) r t :=
    (bringing_update heq).mpr (.inl ⟨rfl, rfl⟩)
  have hidle (t' : Token) : ¬ s.Bringing r t' :=
    not_bringing hq (fun _ ha => by cases hsent.symm.trans ha) t'
  have hwas (hc : q.cause = .refresh) : s.Unsettled r :=
    ⟨q, hq, hc, fun a ha => by cases hsent.symm.trans ha⟩
  have hstill {r' : ℕ} {k : Token}
      (hr : Refreshing (answer { s with sessions } r q (.tokens t)) r' k) :
      r' ≠ r ∧ s.Refreshing r' k := by
    rcases (refreshing_update heq).mp hr with ⟨-, -, hs, -⟩ | hold
    · cases hs
    · exact hold
  constructor
  case single =>
    intro r' hu
    rcases (unsettled_update heq).mp hu with ⟨rfl, hc, -⟩ | ⟨-, hu⟩
    · exact h.single r' (hwas hc)
    · exact h.single r' hu
  case known => exact fun k hk => (hknown _ (h.known k hk)).of_sessions rfl
  case cookie =>
    intro k hk
    rcases h.cookie k hk with hu | ⟨r', t', hb, hu⟩
    · rcases hkept _ hu with hu | ⟨hc, -⟩
      · exact .inl (hu.of_sessions rfl rfl)
      · exact .inr ⟨r, t, hself, (unsettled_update heq).mpr (.inl ⟨rfl, hc, fun _ ha => (by cases ha)⟩)⟩
    · have hr : r' ≠ r := by
        rintro rfl
        exact hidle t' hb
      exact .inr ⟨r', t', (bringing_update heq).mpr (.inr ⟨hr, hb⟩),
        (unsettled_update heq).mpr (.inr ⟨hr, hu⟩)⟩
  case refreshing =>
    intro r' k hr
    obtain ⟨hne, hold⟩ := hstill hr
    rcases hkept _ (h.refreshing r' k hold) with hu | ⟨hc, -⟩
    · exact hu.of_sessions rfl rfl
    · -- one refresh at a time
      have hone := (h.single r (hwas hc)).symm.trans (h.single r' hold.unsettled)
      exact absurd (Option.some.inj hone).symm hne
  case bringing =>
    intro r' t' hb
    rcases (bringing_update heq).mp hb with ⟨-, ha⟩ | ⟨-, hb⟩
    · cases ha
      exact hnew.of_sessions rfl rfl
    · rcases hkept _ (h.bringing r' t' hb) with hu | ⟨hc, hcookie⟩
      · exact hu.of_sessions rfl rfl
      · obtain ⟨k, hk, hsid⟩ := Option.map_eq_some_iff.mp hcookie
        exact absurd hsid (h.newSession r' t' r k hb ⟨q, hq, hc, hsent, hk⟩)
  case newCookie =>
    intro r' t' k hb hk
    rcases (bringing_update heq).mp hb with ⟨-, ha⟩ | ⟨-, hb⟩
    · cases ha
      exact fun hsid => hfresh (hsid ▸ h.known k hk)
    · exact h.newCookie r' t' k hb hk
  case newSession =>
    intro r' t' r'' k hb hr
    obtain ⟨-, hold⟩ := hstill hr
    rcases (bringing_update heq).mp hb with ⟨-, ha⟩ | ⟨-, hb⟩
    · cases ha
      exact fun hsid => hfresh (hsid ▸ (h.refreshing r'' k hold).known)
    · exact h.newSession r' t' r'' k hb hold
  case distinct =>
    intro r' t' r'' t'' hb hb' hne
    rcases (bringing_update heq).mp hb with ⟨hr, ha⟩ | ⟨-, hb⟩
    · cases ha
      rcases (bringing_update heq).mp hb' with ⟨hr', -⟩ | ⟨-, hb'⟩
      · exact absurd (hr.trans hr'.symm) hne
      · exact fun hsid => hfresh (hsid ▸ (h.bringing r'' t'' hb').known)
    · rcases (bringing_update heq).mp hb' with ⟨-, ha⟩ | ⟨-, hb'⟩
      · cases ha
        exact fun hsid => hfresh (hsid ▸ (h.bringing r' t' hb).known)
      · exact h.distinct r' t' r'' t'' hb hb' hne
  case closed => exact hclosed

theorem Honest.login (h : Honest s) (hq : s.requests r = some q) (hsent : q.stage = .sent)
    {row : Session} (hrow : opens s.sessions row = true) (ht : t.sid = row.id) :
    Honest (answer { s with sessions := s.sessions ++ [row] } r q (.tokens t)) := by
  have hlive := opens_live hrow
  have hold {x : Session} (hx : x ∈ s.sessions ++ [row]) (hrevoked : x.revokedAt.isSome = true) :
      x ∈ s.sessions := by
    rcases List.mem_append.mp hx with hx | hx
    · exact hx
    · cases List.mem_singleton.mp hx
      rw [hlive] at hrevoked
      cases hrevoked
  apply h.brings hq hsent
  · exact ht ▸ opens_fresh hrow
  · refine ⟨⟨row, List.mem_append_right _ (List.mem_singleton_self row), ht.symm⟩,
      fun x hx hid hrevoked => ?_⟩
    exact absurd ⟨x, hold hx hrevoked, hid.trans ht⟩ (opens_fresh hrow)
  · rintro sid ⟨x, hx, hid⟩
    exact ⟨x, List.mem_append_left _ hx, hid⟩
  · intro sid hu
    obtain ⟨x, hx, hid⟩ := hu.known
    refine .inl ⟨⟨x, List.mem_append_left _ hx, hid⟩, fun y hy hid' hrevoked => ?_⟩
    exact hu.closed y (hold hy hrevoked) hid' hrevoked
  · intro sid hsid
    obtain ⟨x, hx, hrest⟩ := h.closed sid hsid
    exact ⟨x, List.mem_append_left _ hx, hrest⟩

section Rotated

variable {rows : List Session} {x y z row : Session} {now : ℕ}

theorem of_mem_rotated (hy : y ∈ rotated rows x row now) :
    ∃ z, (z ∈ rows ∨ z = row) ∧ y.id = z.id ∧ (z.id ≠ x.id → y = z) := by
  obtain ⟨z, hz, rfl⟩ := List.mem_map.mp hy
  refine ⟨z, ?_, ?_, fun hne => if_neg hne⟩
  · simpa using hz
  · split <;> rfl

theorem mem_rotated (x : Session) (now : ℕ) (hz : z ∈ rows ∨ z = row) : ∃ y ∈ rotated rows x row now,
    y.id = z.id ∧ (z.revokedAt.isSome = true → y.revokedAt.isSome = true) := by
  refine ⟨_, List.mem_map_of_mem (a := z) (by simpa using hz), ?_, ?_⟩
  · split <;> rfl
  · split
    · exact fun _ => rfl
    · exact id

end Rotated

theorem Honest.rotate (h : Honest s) (hq : s.requests r = some q) (hc : q.cause = .refresh)
    (hsent : q.stage = .sent) (hk : q.cookie = some k) {x row : Session} (hx : x ∈ s.sessions)
    (hid : x.id = k.sid) (hrow : opens s.sessions row = true) (ht : t.sid = row.id) (now : ℕ) :
    Honest (answer { s with sessions := rotated s.sessions x row now } r q (.tokens t)) := by
  have hfresh := opens_fresh hrow
  have hlive := opens_live hrow
  have hknown (sid : Uuid) (hs : s.Known sid) :
      Known { s with sessions := rotated s.sessions x row now } sid := by
    obtain ⟨z, hz, rfl⟩ := hs
    obtain ⟨y, hy, hid', -⟩ := mem_rotated x now (.inl hz : z ∈ s.sessions ∨ z = row)
    exact ⟨y, hy, hid'⟩
  apply h.brings hq hsent (ht ▸ hfresh) ?_ hknown ?_ ?_
  · obtain ⟨y, hy, hid', -⟩ := mem_rotated x now (.inr rfl : row ∈ s.sessions ∨ row = row)
    refine ⟨⟨y, hy, hid'.trans ht.symm⟩, fun y hy hsid hrevoked => ?_⟩
    obtain ⟨z, hz, hzid, hsame⟩ := of_mem_rotated hy
    have hz' : z.id = row.id := hzid.symm.trans (hsid.trans ht)
    rcases hz with hz | rfl
    · exact absurd ⟨z, hz, hz'⟩ hfresh
    · have hne : z.id ≠ x.id := fun heq => hfresh ⟨x, hx, heq.symm⟩
      rw [hsame hne, hlive] at hrevoked
      cases hrevoked
  · intro sid hu
    by_cases hsid : sid = k.sid
    · exact .inr ⟨hc, by rw [hk, Option.map_some, hsid]⟩
    · refine .inl ⟨hknown sid hu.known, fun y hy hyid hrevoked => ?_⟩
      obtain ⟨z, hz, hzid, hsame⟩ := of_mem_rotated hy
      have hz' : z.id = sid := hzid.symm.trans hyid
      have hne : z.id ≠ x.id := fun heq => hsid (hz'.symm.trans (heq.trans hid))
      rw [hsame hne] at hrevoked
      rcases hz with hz | rfl
      · exact hu.closed z hz hz' hrevoked
      · rw [hlive] at hrevoked
        cases hrevoked
  · intro sid hsid
    obtain ⟨z, hz, hzid, hrevoked⟩ := h.closed sid hsid
    obtain ⟨y, hy, hid', hstill⟩ := mem_rotated x now (.inl hz : z ∈ s.sessions ∨ z = row)
    exact ⟨y, hy, hid'.trans hzid, hstill hrevoked⟩

theorem Honest.logout (h : Honest s) (k : Token) (now : ℕ) :
    Honest { s with
      sessions := s.sessions.map fun x => if wanted k x then x.revoked now else x
      closed := (s.sessions.filter (wanted k)).map (·.id) ++ s.closed } := by
  have hknown {sid : Uuid} (hs : s.Known sid) : ∃ x ∈ s.sessions.map fun x =>
      if wanted k x then x.revoked now else x, x.id = sid := by
    obtain ⟨x, hx, rfl⟩ := hs
    refine ⟨_, List.mem_map_of_mem hx, ?_⟩
    split <;> rfl
  have hunspent {sid : Uuid} (hu : s.Unspent sid) : Unspent { s with
      sessions := s.sessions.map fun x => if wanted k x then x.revoked now else x
      closed := (s.sessions.filter (wanted k)).map (·.id) ++ s.closed } sid := by
    refine ⟨hknown hu.known, fun y hy hid hrevoked => ?_⟩
    obtain ⟨x, hx, rfl⟩ := List.mem_map.mp hy
    by_cases hw : wanted k x = true
    · rw [if_pos hw] at hid
      refine List.mem_append_left _ (List.mem_map.mpr ⟨x, List.mem_filter.mpr ⟨hx, hw⟩, hid⟩)
    · rw [if_neg hw] at hid hrevoked
      exact List.mem_append_right _ (hu.closed x hx hid hrevoked)
  constructor
  case single => exact h.single
  case known => exact fun k' hk => hknown (h.known k' hk)
  case cookie => exact fun k' hk => (h.cookie k' hk).imp hunspent id
  case refreshing => exact fun r k' hr => hunspent (h.refreshing r k' hr)
  case bringing => exact fun r t hb => hunspent (h.bringing r t hb)
  case newCookie => exact h.newCookie
  case newSession => exact h.newSession
  case distinct => exact h.distinct
  case closed =>
    intro sid hsid
    rcases List.mem_append.mp hsid with hsid | hsid
    · obtain ⟨x, hx, rfl⟩ := List.mem_map.mp hsid
      obtain ⟨hx, hw⟩ := List.mem_filter.mp hx
      refine ⟨_, List.mem_map_of_mem hx, ?_⟩
      rw [if_pos hw]
      exact ⟨rfl, rfl⟩
    · obtain ⟨x, hx, hid, hrevoked⟩ := h.closed sid hsid
      refine ⟨_, List.mem_map_of_mem hx, ?_⟩
      split
      · exact ⟨hid, rfl⟩
      · exact ⟨hid, hrevoked⟩

theorem Honest.handled (h : Honest s) (hq : s.requests r = some q) {row : Session} {now : ℕ}
    (hh : Handled s r q row now s') (hno : s'.swept = false) : Honest s' := by
  cases hh with
  | admitted hs =>
    exact h.mark hq (fun heq => (by cases heq)) (fun _ heq => (by cases heq))
      (fun _ heq => by cases hs.symm.trans heq) fun _ heq => by cases hs.symm.trans heq
  | turned hs ha =>
    refine h.mark hq (fun heq => (by cases heq)) (fun t heq => ?_) (fun _ heq => ?_) fun _ heq => ?_
    · cases heq
      exact ha t rfl
    · rcases hs with hs | hs <;> cases hs.symm.trans heq
    · rcases hs with hs | hs <;> cases hs.symm.trans heq
  | login _ hs hrow => exact h.login hq hs hrow rfl
  | reused => cases hno
  | rotated hc hs hk hx hid hrow => exact h.rotate hq hc hs hk hx hid hrow rfl now
  | @logout t hs =>
    refine (h.logout t now).mark hq (fun heq => (by cases heq)) (fun _ heq => (by cases heq))
      (fun _ heq => by cases hs.symm.trans heq) fun _ heq => by cases hs.symm.trans heq

/-! What the server has seen. -/

/-- No refresh has come in with the token of a session that was rotated or revoked, and no such refresh
has made the server revoke all sessions of their user. -/
structure Unreplayed (s : Tab) : Prop where
  replayed : s.replayed = false
  swept : s.swept = false

structure SameRecord (s s' : Tab) : Prop where
  replayed : s'.replayed = s.replayed
  swept : s'.swept = s.swept

theorem Sends.sameRecord (h : Sends s s') : SameRecord s s' := ⟨h.replayed, h.swept⟩

theorem sameRecord_finish (s : Tab) (c : ℕ) (path : AuthedPath) : SameRecord s (s.finish c path) := by
  cases path <;> exact ⟨rfl, rfl⟩

theorem sameRecord_wake (s : Tab) (c r : ℕ) (path : AuthedPath) (retry : Bool) (a : Answer) :
    SameRecord s (s.wake c r path retry a) := by
  cases a with
  | tokens t => exact ⟨rfl, rfl⟩
  | ok | unauthorized | failed => exact sameRecord_finish s c path

theorem sameRecord_settle (s : Tab) (q : Request) (a : Answer) (r : ℕ) :
    SameRecord s (s.settle q a r) := by
  rw [Tab.settle.eq_def]
  split
  · exact ⟨rfl, rfl⟩
  · exact ⟨rfl, rfl⟩
  · exact ⟨rfl, rfl⟩
  · exact ⟨rfl, rfl⟩
  · exact ⟨rfl, rfl⟩
  · have h := sends_awaitRefresh (s.clearSession.refused q.accessToken)
    exact ⟨(h _ _ _ _).replayed, (h _ _ _ _).swept⟩
  · have h := sameRecord_finish (s.refused q.accessToken)
    exact ⟨(h _ _).replayed, (h _ _).swept⟩
  · exact sameRecord_finish s _ _

theorem replays_eq_true : s.replays q = true ↔ q.stage = .sent ∧ q.cause = .refresh ∧
    ∃ k, q.cookie = some k ∧ ∃ x ∈ s.sessions, x.id = k.sid ∧ x.revokedAt.isSome = true := by
  simp only [replays, decide_eq_true_eq, Option.any_eq_true, List.any_eq_true]

theorem handled_record {row : Session} {now : ℕ} (hh : Handled s r q row now s') :
    s'.replayed = s.replayed ∧ (s'.swept = s.swept ∨ s.replays q = true) := by
  cases hh with
  | reused hc hs ht hx hid hrevoked =>
    exact ⟨rfl, .inr (replays_eq_true.mpr ⟨hs, hc, _, ht, _, hx, hid, hrevoked⟩)⟩
  | _ => exact ⟨rfl, .inl rfl⟩

theorem step_record {lossy : Bool} (hstep : step lossy s l = some s') :
    SameRecord s s' ∨
      ∃ r v row now q, l = .serve r v row now ∧ s.requests r = some q ∧
        s'.replayed = (s.replayed || s.replays q) ∧ (s'.swept = s.swept ∨ s.replays q = true) := by
  cases step_cases hstep with
  | loginWithPassword => exact .inl ⟨rfl, rfl⟩
  | refreshAccessToken => exact .inl (sends_refreshAccessToken s _).sameRecord
  | fetchCurrentSession => exact .inl (sends_authedRequest s _ _ _).sameRecord
  | restoreSession => exact .inl (sends_restoreSession s _ _).sameRecord
  | logoutSession => exact .inl (sends_authedRequest s _ _ _).sameRecord
  | @serve r q v row now m hq hs =>
    exact .inr ⟨r, v, row, now, q, rfl, hq, rfl, (handled_record (serve_cases hs)).2⟩
  | @arrive r q a =>
    have h := sends_setCookie (s.mark r q (.arrived a)) q a
    exact .inl ⟨h.replayed, h.swept⟩
  | lose => exact .inl ⟨rfl, rfl⟩
  | @resume r new q a =>
    have h := sameRecord_settle (s.mark r q (.settled a)) q a new
    exact .inl ⟨h.replayed, h.swept⟩
  | wake => exact .inl (sameRecord_wake s _ _ _ _ _)
  | refreshSettled => exact .inl ⟨rfl, rfl⟩
  | restoreSettled => exact .inl ⟨rfl, rfl⟩

theorem replays_iff (h : Honest s) (hq : s.requests r = some q) :
    s.replays q = false ↔ ∀ k, s.Refreshing r k → k.sid ∉ s.closed := by
  rw [← Bool.not_eq_true, replays_eq_true]
  constructor
  · intro hno k hr hclosed
    obtain ⟨q', hq', hc, hs, hk⟩ := hr
    cases hq.symm.trans hq'
    exact hno ⟨hs, hc, k, hk, h.closed _ hclosed⟩
  · rintro hopen ⟨hs, hc, k, hk, x, hx, hid, hrevoked⟩
    have hr : s.Refreshing r k := ⟨q, hq, hc, hs, hk⟩
    exact hopen k hr ((h.refreshing r k hr).closed x hx hid hrevoked)

theorem Unreplayed.of_step {lossy : Bool} (h : Unreplayed s') (hstep : step lossy s l = some s') :
    Unreplayed s := by
  rcases step_record hstep with hsame | ⟨r, v, row, now, q, -, -, hreplayed, hswept⟩
  · exact ⟨hsame.replayed ▸ h.replayed, hsame.swept ▸ h.swept⟩
  · have hno := hreplayed.symm.trans h.replayed
    rw [Bool.or_eq_false_iff] at hno
    rcases hswept with hswept | hyes
    · exact ⟨hno.1, hswept ▸ h.swept⟩
    · cases hno.2.symm.trans hyes

theorem honest_keeps : Preserves (step false) fun s => Unreplayed s → Honest s := by
  intro s l s' hstep hs hu
  have h := hs (hu.of_step hstep)
  cases step_cases hstep with
  | loginWithPassword hr => exact h.send hr (fun heq => (by cases heq)) none
  | refreshAccessToken hr => exact h.refreshAccessToken hr
  | fetchCurrentSession hr => exact h.authedRequest hr _ _
  | restoreSession hr => exact h.restoreSession hr _
  | logoutSession hr => exact h.authedRequest hr _ _
  | serve hq hs =>
    have hserved := h.handled hq (serve_cases hs) hu.swept
    exact hserved.quieter (.of_same rfl rfl rfl rfl rfl)
  | arrive hq ha => exact h.arrive hq ha
  | lose _ hl => cases hl
  | @resume r new q a hq ha hnew =>
    have hmark : Honest (s.mark r q (.settled a)) :=
      h.mark hq (fun heq => (by cases heq)) (fun _ heq => (by cases heq))
        (fun _ heq => by cases ha.symm.trans heq) fun _ heq => by cases ha.symm.trans heq
    refine hmark.settle ?_ q a
    have hne : new ≠ r := by
      rintro rfl
      cases hq.symm.trans hnew
    exact (update_of_ne hne _ _).trans hnew
  | wake _ hnew => exact h.wake hnew _ _ _ _
  | refreshSettled hr hq ha => exact h.refreshSettled hr hq ha
  | restoreSettled => exact h.quieter (.of_same rfl rfl rfl rfl rfl)

/-- A page that has just been loaded; its cookie, if it has one, is that of a live session. -/
structure Loaded (s : Tab) : Prop extends Opened s, Unreplayed s where
  cookie : ∀ k, s.cookie = some k →
    s.Known k.sid ∧ ∀ x ∈ s.sessions, x.id = k.sid → x.revokedAt = none
  closed : s.closed = []

theorem Loaded.honest (h : Loaded s) : Honest s := by
  have hnone (r : ℕ) : ¬ s.Unsettled r := not_unsettled_of_none (h.requests r)
  have hidle (r : ℕ) (t : Token) : ¬ s.Bringing r t := not_bringing_of_none (h.requests r) t
  constructor
  case single => exact fun r hu => absurd hu (hnone r)
  case known => exact fun k hk => (h.cookie k hk).1
  case cookie =>
    intro k hk
    obtain ⟨hknown, hlive⟩ := h.cookie k hk
    refine .inl ⟨hknown, fun x hx hid hrevoked => ?_⟩
    rw [hlive x hx hid] at hrevoked
    cases hrevoked
  case refreshing => exact fun r k hr => absurd hr.unsettled (hnone r)
  case bringing => exact fun r t hb => absurd hb (hidle r t)
  case newCookie => exact fun r t k hb => absurd hb (hidle r t)
  case newSession => exact fun r t r' k hb => absurd hb (hidle r t)
  case distinct => exact fun r t r' t' hb => absurd hb (hidle r t)
  case closed =>
    intro sid hsid
    rw [h.closed] at hsid
    cases hsid

end JitoGame.Web.Tab
