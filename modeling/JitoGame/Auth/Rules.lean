import JitoGame.Auth.Contract

namespace JitoGame.Auth

open Transactions AuthService

variable {env : Env} {base : Db env.Hash} {spec : Commit (schema env) → Db env.Hash → Prop}
variable {i : ℕ} {c : Call} {s : Local (schema env)} {w : World (schema env)} {start : ℕ}
variable {E : Err → Local (schema env) → World (schema env) → Prop}
variable {ws : List (Write env.Hash)} {held : List (Resource (schema env))}

theorem fault_ne : Err.fault ≠ .refreshTokenReused := by decide

def Quiet (x : Write env.Hash) : Prop := (∀ s, x.session s = s) ∧ x.newSessions = []

theorem Bookkeeping.quiet {x : Write env.Hash} (h : Bookkeeping x) : Quiet x := by
  cases x with
  | resetFailures => exact ⟨fun _ => rfl, rfl⟩
  | failLogin => exact ⟨fun _ => rfl, rfl⟩
  | touchAdmin => exact ⟨fun _ => rfl, rfl⟩
  | _ => cases h

theorem Quiet.sessions {x : Write env.Hash} (h : Quiet x) (d : Db env.Hash) :
    (x.apply d).sessions = d.sessions := by
  have hid : x.session = id := funext h.1
  simp [Write.apply, h.2, hid]

theorem sessions_quiet (h : ∀ x ∈ ws, Quiet x) (d : Db env.Hash) :
    Db.sessions (applyAll (S := schema env) ws d) = d.sessions := by
  induction ws generalizing d with
  | nil => rfl
  | cons x ws ih =>
    have hx := h x List.mem_cons_self
    rw [applyAll_cons, ih (fun y hy => h y (List.mem_cons_of_mem _ hy)), hx.sessions]

theorem mem_sessions_kept {x : Session} (h : ∀ y ∈ ws, y.session x = x) {d : Db env.Hash}
    (hx : x ∈ d.sessions) : x ∈ Db.sessions (applyAll (S := schema env) ws d) := by
  induction ws generalizing d with
  | nil => exact hx
  | cons y ws ih =>
    have hy : x ∈ (y.apply d).sessions :=
      mem_sessions_apply.mpr (.inl ⟨x, hx, h y List.mem_cons_self⟩)
    exact ih (fun z hz => h z (List.mem_cons_of_mem _ hz)) hy

theorem Write.user_id (x : Write env.Hash) (u : User env.Hash) : (x.user u).id = u.id := by
  cases x with
  | setPasswordHash j h => simp only [Write.user]; split <;> rfl
  | resetFailures j t => simp only [Write.user]; split <;> rfl
  | failLogin j n t => simp only [Write.user]; split <;> rfl
  | _ => rfl

theorem userById_apply (x : Write env.Hash) (d : Db env.Hash) (id : Uuid) :
    (x.apply d).userById id = (d.userById id).map x.user := by
  simp only [Db.userById, Write.apply, List.find?_map, Function.comp_def, Write.user_id]

theorem userById_isSome (ws : List (Write env.Hash)) (d : Db env.Hash) (id : Uuid) :
    (Db.userById (applyAll (S := schema env) ws d) id).isSome = (d.userById id).isSome := by
  induction ws generalizing d with
  | nil => rfl
  | cons x ws ih => rw [applyAll_cons, ih, userById_apply, Option.isSome_map]

theorem wp_updateUser {Q : Unit → Local (schema env) → World (schema env) → Prop}
    (h : s.In start ws held) {tag : Tag} {userId : Uuid} {x : Write env.Hash}
    (hx : footprint x = [.row (.user userId)])
    (hE : ∀ e s' w', Along (discipline base spec) i s w s' w' → e ≠ .refreshTokenReused → E e s' w')
    (hQ : ∀ s' w', s'.In start (ws ++ [x]) held → Along (discipline base spec) i s w s' w' →
      (∀ w'', Rely (discipline base spec) i s' w' w'' → (w''.db.userById userId).isSome = true) →
      Q () s' w') :
    wp (discipline base spec) i c (updateUser env tag userId x) Q E s w := by
  rw [updateUser, wp_bind]
  refine h.wp_exec (fun w' hal => hE _ _ w' hal fault_ne) (fun w' _ y hy r hr => ?_)
    fun s₁ w₁ v hv hin hal _ => ?_
  · split at hy
    · rename_i hsome
      obtain rfl : y = x := by simpa using hy
      have hr' : r = .row (.user userId) := by simpa [discipline, hx] using hr
      obtain ⟨u, hu⟩ := Option.isSome_iff_exists.mp hsome
      have hid : u.id = userId := by simpa using List.find?_some hu
      simp [hr', hu, hid]
    · cases hy
  · rw [wp_require]
    refine ⟨fun hsome => ?_, fun _ => hE _ s₁ w₁ hal (by decide)⟩
    have hfound : (w₁.db.userById userId).isSome = true := by
      rw [← userById_isSome ws, ← hsome, hv]
    obtain ⟨u, hu⟩ := Option.isSome_iff_exists.mp hsome
    obtain ⟨u₁, hu₁⟩ := Option.isSome_iff_exists.mp hfound
    have hid : u.id = userId := by simpa using List.find?_some hu
    have hid₁ : u₁.id = userId := by simpa using List.find?_some hu₁
    have hheld : s₁.Holds (.row (.user userId)) := hin.held _ (by simp [hu, hid])
    simp only [hsome, if_true] at hin
    apply hQ s₁ w₁ (hin.weaken (List.subset_append_right _ _)) hal
    intro w'' hrely
    have hmem := hrely.agree (.row (.user userId)) hheld u₁ (List.mem_of_find?_eq_some hu₁) hid₁
    exact List.find?_isSome.mpr ⟨u₁, hmem, decide_eq_true hid₁⟩

theorem wp_updateAdmin {Q : Unit → Local (schema env) → World (schema env) → Prop}
    (h : s.In start ws held) {adminId : Uuid} {lastLoginAt : ℕ}
    (hE : ∀ e s' w', Along (discipline base spec) i s w s' w' → e ≠ .refreshTokenReused → E e s' w')
    (hQ : ∀ s' w', s'.In start (ws ++ [.touchAdmin adminId lastLoginAt]) held →
      Along (discipline base spec) i s w s' w' → Q () s' w') :
    wp (discipline base spec) i c (AdminAuthService.updateAdmin env adminId lastLoginAt) Q E s w := by
  rw [AdminAuthService.updateAdmin, wp_bind]
  refine h.wp_exec (fun w' hal => hE _ _ w' hal fault_ne) (fun w' _ y hy r hr => ?_)
    fun s₁ w₁ v hv hin hal _ => ?_
  · split at hy
    · rename_i hsome
      obtain rfl : y = .touchAdmin adminId lastLoginAt := by simpa using hy
      have hr' : r = .row (.admin adminId) := by simpa [discipline, footprint] using hr
      obtain ⟨a, ha⟩ := Option.isSome_iff_exists.mp hsome
      have hid : a.id = adminId := by simpa using List.find?_some ha
      simp [hr', ha, hid]
    · cases hy
  · rw [wp_require]
    refine ⟨fun hsome => ?_, fun _ => hE _ s₁ w₁ hal (by decide)⟩
    simp only [hsome, if_true] at hin
    exact hQ s₁ w₁ (hin.weaken (List.subset_append_right _ _)) hal

theorem wp_insertSession {Q : Session → Local (schema env) → World (schema env) → Prop}
    {owner : Uuid} {audience : Audience} {ip rawToken : String} {userAgent : Option String} {nowMs : ℕ}
    (h : s.In start [] held)
    (hE : ∀ e s' w', Along (discipline base spec) i s w s' w' → e ≠ .refreshTokenReused → E e s' w')
    (hQ : ∀ s' w' row, s'.In start [.insertSession row] held →
      Along (discipline base spec) i s w s' w' →
      (∀ w'', Rely (discipline base spec) i s' w' w'' → Creates env row owner audience w''.db) →
      Q row s' w') :
    wp (discipline base spec) i c (insertSession env owner audience ip userAgent rawToken nowMs) Q E
      s w := by
  rw [insertSession, wp_bind]
  refine h.wp_exec (fun w' hal => hE _ _ w' hal fault_ne) (fun _ _ _ hx => by cases hx)
    fun s₁ w₁ v hv hin₁ hal₁ _ => ?_
  rw [wp_bind, wp_require]
  refine ⟨fun _ => ?_, fun _ => hE _ s₁ w₁ hal₁ (by decide)⟩
  rw [wp_bind]
  apply wp_fresh_known
  intro id w₂ hnew hal₂
  have hal₂' := hal₁.trans hal₂
  have hin₂ : (s₁.mint id).In start [] (.id id :: held) := by simpa using hin₁.mint id
  rw [wp_bind, wp_require]
  refine ⟨fun hfit => ?_, fun _ => hE _ _ w₂ hal₂' (by decide)⟩
  rw [wp_bind]
  refine wp_insert hin₂ (fun w' hal => hE _ _ w' (hal₂'.trans hal) fault_ne) (fun x hx r hr => ?_)
    (fun s' w' _ hal _ => hE _ s' w' (hal₂'.trans hal) (by decide)) fun s₃ w₃ hin₃ hal₃ htaken => ?_
  · obtain rfl := List.mem_singleton.mp hx
    simp only [discipline, footprint, List.mem_cons, List.not_mem_nil, or_false] at hr
    rcases hr with rfl | rfl
    · exact List.mem_cons_self
    · exact List.mem_cons_of_mem _ List.mem_cons_self
  have hin₃' : s₃.In start [.insertSession
      (sessionRow env id owner audience ip userAgent rawToken nowMs)] held := by
    apply hin₃.weaken
    intro r hr
    exact List.mem_cons_of_mem _ (List.mem_cons_of_mem _ hr)
  apply hQ s₃ w₃ _ hin₃' (hal₂'.trans hal₃)
  intro w'' hrely
  refine ⟨⟨ip, userAgent, rawToken, nowMs, rfl⟩, fun hknown => ?_, ?_⟩
  · have hid := (hal₃.rely' hrely).rely.agree (.id id) (hin₂.held _ List.mem_cons_self)
    exact hnew (hid hknown)
  · have htoken := hrely.agree (.row (.tokenHash (env.hashToken rawToken)))
      (hin₃.held _ List.mem_cons_self)
    by_contra hne
    have htaken' : w₃.db.hasToken (env.hashToken rawToken) = false := htaken
    rw [htoken (by simpa [sessionRow] using hne)] at htaken'
    cases htaken'

theorem wp_createSession {Q : AuthTokens × Uuid → Local (schema env) → World (schema env) → Prop}
    {owner : Uuid} {audience : Audience} {role ip : String} {userAgent : Option String}
    (h : s.In start [] held)
    (hE : ∀ e s' w', Along (discipline base spec) i s w s' w' → e ≠ .refreshTokenReused → E e s' w')
    (hQ : ∀ s' w' row rawToken jti, s'.In start [.insertSession row] held →
      Along (discipline base spec) i s w s' w' →
      (∀ w'', Rely (discipline base spec) i s' w' w'' → Creates env row owner audience w''.db) →
      Q (issue env row owner audience role rawToken jti, row.id) s' w') :
    wp (discipline base spec) i c (createSession env owner audience role ip userAgent .tx) Q E s w := by
  rw [createSession, wp_bind]
  apply wp_outside_along
  intro random w₁ hal₁
  rw [wp_bind]
  apply wp_outside_along
  intro nowMs w₂ hal₂
  rw [wp_bind]
  have hal := hal₁.trans hal₂
  refine wp_insertSession h (fun e s' w' hal' => hE e s' w' (hal.trans hal'))
    fun s₃ w₃ row hin₃ hal₃ hcreates => ?_
  rw [wp_bind]
  apply wp_outside_along
  intro jti w₄ hal₄
  exact hQ s₃ w₄ row (randomToken random) jti hin₃ (hal.trans (hal₃.trans hal₄)) fun w'' hrely =>
    hcreates w'' (hal₄.rely' hrely).rely

theorem wp_updateSessions {Q : Unit → Local (schema env) → World (schema env) → Prop}
    {wanted : Session → Bool} {revokedAt : ℕ} (h : s.In start ws held) (hws : ∀ x ∈ ws, Quiet x)
    (hE : ∀ e s' w', Along (discipline base spec) i s w s' w' → e ≠ .refreshTokenReused → E e s' w')
    (hQ : ∀ s' w' m ws', s'.In start (ws ++ ws') held → Along (discipline base spec) i s w s' w' →
      Revocations ws' →
      (∀ w'', Rely (discipline base spec) i s' w' w'' →
        Sweeps wanted m (ws ++ ws') s'.trace w''.db) → Q () s' w') :
    wp (discipline base spec) i c (updateSessions env wanted revokedAt) Q E s w := by
  rw [updateSessions]
  refine wp_updateMany h (fun s' w' hal => hE _ s' w' hal fault_ne) (fun id v y hy r hr => ?_)
    fun m s' w' ws' hm htag hin hal hvisit hwrites => ?_
  · split at hy
    · obtain rfl : y = .revoke id revokedAt := by simpa using hy
      simpa [discipline, footprint] using hr
    · cases hy
  have hrevoke : Revocations ws' := by
    intro y hy
    obtain ⟨id, -, v, hv⟩ := hwrites y hy
    split at hv
    · exact ⟨id, revokedAt, by simpa using hv⟩
    · cases hv
  apply hQ s' w' m ws' (hin.weaken (List.subset_append_right _ _)) hal hrevoke
  intro w'' hrely
  refine ⟨hm, htag, fun x hx hwant => ?_⟩
  have hcand : x.id ∈ ((Db.sessions (applyAll (S := schema env) ws m.db)).filter wanted).map (·.id) := by
    rw [sessions_quiet hws]
    exact List.mem_map_of_mem (List.mem_filter.mpr ⟨hx, hwant⟩)
  obtain ⟨m', hm', htag', hlock, hle, hagree, before, hbefore, heffect⟩ := hvisit x.id hcand
  have hheld : s'.Holds (.row (.session x.id)) := by
    refine hin.held _ (List.mem_append_left _ ?_)
    exact List.mem_map_of_mem hcand
  refine ⟨m', hm', htag', hlock, hle, fun y hy hid => ?_, fun y hy hid hwant' => ?_⟩
  · exact hrely.agree (.row (.session x.id)) hheld y (hagree y hy hid) hid
  by_cases hdone : ∃ t, Write.revoke x.id t ∈ before
  · obtain ⟨t, ht⟩ := hdone
    exact ⟨t, hbefore.subset ht⟩
  · have hkept : y ∈ Db.sessions (applyAll (S := schema env) before m'.db) := by
      refine mem_sessions_kept (fun z hz => ?_) hy
      rcases List.mem_append.mp (hbefore.subset hz) with hz' | hz'
      · exact (hws z hz').1 y
      · obtain ⟨id, t, rfl⟩ := hrevoke z hz'
        have hne : y.id ≠ id := by
          rintro rfl
          exact hdone ⟨t, hid ▸ hz⟩
        simp [Write.session, hne]
    have hany : (Db.sessions (applyAll (S := schema env) before m'.db)).any
        (fun s => s.id = x.id ∧ wanted s) = true :=
      List.any_eq_true.mpr ⟨y, hkept, by simp [hid, hwant']⟩
    refine ⟨revokedAt, heffect ?_⟩
    change _ ∈ if _ then _ else _
    rw [if_pos hany]
    exact List.mem_singleton_self _

end JitoGame.Auth
