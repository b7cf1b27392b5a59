import JitoGame.Auth.Alone
import JitoGame.Web.Session

namespace JitoGame.Web

open Auth Auth.AuthService Transactions

/-! The server of the tab does what the service does. -/

variable {env : Env} {d : Auth.Db env.Hash} {s : Tab} {r : ℕ} {q : Request} {row x : Session}
variable {owner : Uuid} {audience : Audience} {k : Token} {rawToken : String} {now : ℕ}

theorem opens_of_creates (h : Auth.Creates env row owner audience d) : opens d.sessions row = true := by
  obtain ⟨ip, userAgent, token, nowMs, hrow⟩ := h.eq_row
  simp only [opens, Bool.decide_and, Bool.and_eq_true, decide_eq_true_eq, List.all_eq_true]
  refine ⟨fun y hy hid => h.fresh ⟨y, hy, hid⟩, ?_, h.replacedBySessionId⟩
  rw [hrow]
  rfl

theorem login_simulates (h : Auth.Creates env row owner .player d) (hs : s.sessions = d.sessions) :
    Tab.AuthController.login s r q row =
      some (Tab.answer { s with sessions := ((Auth.Write.insertSession row).apply d).sessions } r q
        (.tokens ⟨row.id, owner, row.id⟩)) := by
  have huser : row.userId = some owner := h.userId
  simp only [Tab.AuthController.login, huser, hs, opens_of_creates h, ↓reduceIte, sessions_insert]

theorem find_session (h : Keyed d.sessions) (hx : x ∈ d.sessions) :
    (d.sessions.find? fun y => y.id = x.id) = some x := by
  have hsome : (d.sessions.find? fun y => y.id = x.id).isSome = true :=
    List.find?_isSome.mpr ⟨x, hx, decide_eq_true rfl⟩
  obtain ⟨y, hy⟩ := Option.isSome_iff_exists.mp hsome
  have hid : y.id = x.id := by simpa using List.find?_some hy
  rw [hy, h.eq_of_id (List.mem_of_find?_eq_some hy) hx hid]

theorem refresh_simulates (h : Auth.Rotates env rawToken x owner row d) (hd : Keyed d.sessions)
    (hs : s.sessions = d.sessions) (hk : q.cookie = some k) (hid : k.sid = x.id) :
    Tab.AuthController.refresh s r q row now =
      some (Tab.answer { s with sessions :=
          (applyAll (S := Auth.schema env) (Auth.rotation env x now row) d).sessions } r q
        (.tokens ⟨row.id, k.sub, k.login⟩)) := by
  have hfound : (d.sessions.find? fun y => y.id = k.sid) = some x := by
    rw [hid]
    exact find_session hd h.mem
  obtain ⟨huser, hadmin⟩ := h.same_owner (hd.owner x h.mem)
  have hrotated : rotated d.sessions x row now = Auth.Db.sessions
      (applyAll (S := Auth.schema env) (Auth.rotation env x now row) d) := sessions_rotation.symm
  simp only [Tab.AuthController.refresh, hk, hfound, h.live, h.owned, huser, hadmin, hs,
    opens_of_creates h.creates, ← hrotated, Option.isSome_none, Option.isNone_some,
    Bool.false_eq_true, and_self, ↓reduceIte]

theorem logout_simulates {σ : State (Auth.schema env)} {p : Proc (Auth.schema env)} {a : Auth.Res}
    (h : Serves (Auth.body env) Auth.Db.Known d (Auth.Call.logout k.sid (some k.sub) false) σ)
    (hp : σ.procs 0 = some p) (hr : p.prog.Ends (.ok a)) (hd : Keyed d.sessions)
    (hs : s.sessions = d.sessions) (hk : q.accessToken = some k) :
    ∃ now s', Tab.AuthController.logout s r q now = some s' ∧ s'.sessions = σ.world.db.sessions := by
  obtain ⟨now, hsessions⟩ := logout_serves hd h hp hr
  have hlogout := congrArg (Option.map fun t => Tab.answer { s with
    sessions := s.sessions.map fun x => if wanted t x then x.revoked now else x
    closed := (s.sessions.filter (wanted t)).map (·.id) ++ s.closed } r q .ok) hk
  refine ⟨now, _, hlogout, ?_⟩
  rw [hsessions, ← hs]
  change s.sessions.map (fun x => if wanted k x then x.revoked now else x) = _
  simp only [wanted, decide_eq_true_eq]

theorem reuse_simulates {σ : State (Auth.schema env)} {p : Proc (Auth.schema env)} {ip : String}
    (h : Serves (Auth.body env) Auth.Db.Known d (Auth.Call.refresh rawToken ip) σ)
    (hp : σ.procs 0 = some p) (hr : p.prog.Ends (.error Auth.Err.refreshTokenReused))
    (hd : Keyed d.sessions) (hx : d.sessionOf (env.hashToken rawToken) = some x)
    (hrevoked : x.revokedAt.isSome = true) (howner : ownerId x = some owner)
    (hs : s.sessions = d.sessions) (hk : q.cookie = some k) (hid : k.sid = x.id) (row : Session) :
    ∃ now s', Tab.AuthController.refresh s r q row now = some s' ∧ s'.swept = true ∧
      s'.sessions = σ.world.db.sessions := by
  obtain ⟨now, hsessions⟩ := reuse_serves hd hx hrevoked howner h hp hr
  have hfound : (s.sessions.find? fun y => y.id = k.sid) = some x := by
    rw [hs, hid]
    exact find_session hd (List.mem_of_find?_eq_some hx)
  have hrefresh : Tab.AuthController.refresh s r q row now = some (Tab.answer { s with
      sessions := Web.revokeReused s.sessions x now, swept := true } r q .unauthorized) := by
    simp only [Tab.AuthController.refresh, hk, hfound, hrevoked, ↓reduceIte]
  refine ⟨now, _, hrefresh, rfl, ?_⟩
  change Web.revokeReused s.sessions x now = _
  rw [hsessions, hs]
  simp only [Web.revokeReused, howner]

end JitoGame.Web
