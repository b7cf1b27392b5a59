import JitoGame.PointsVerified

namespace JitoGame.AdminPointsService

open Transactions

variable {base : Db} {spec : Commit sql → Db → Prop} {i : ℕ} {c : Call}
variable {s : Local sql} {w : World sql} {E : Err → Local sql → World sql → Prop} {start : ℕ}

def adminLogOf (d : Db) (t : PointsTransaction) : Option AdminLog :=
  t.referenceId.bind fun logId => d.adminLogs.find? fun l => l.id = logId

def matchesIn (d : Db) (t : PointsTransaction) (params : AdjustPointsParams) : Bool :=
  matchesReplay t (d.accountOf params.targetUserId) (adminLogOf d t) params

theorem accountOf_id {d d' : Db} (h : Grows d d') (u : Uuid) :
    (d'.accountOf u).map (·.id) = (d.accountOf u).map (·.id) := by
  have hpairs (d : Db) : (d.accountOf u).map (·.id) =
      ((d.accounts.map fun a => (a.id, a.userId)).find? fun x => x.2 = u).map Prod.fst := by
    rw [Db.accountOf, List.find?_map, Option.map_map]
    rfl
  rw [hpairs, hpairs, h.accounts]

theorem wp_findAdminLog {t : PointsTransaction} (h : s.tx = none)
    {Q : Option AdminLog → Local sql → World sql → Prop} (hw : w.Ok (discipline base spec))
    (hfault : ∀ s' w', Along (discipline base spec) i s w s' w' → s'.faulted = true → E .fault s' w')
    (hQ : ∀ s' w', s'.tx = none → Along (discipline base spec) i s w s' w' →
      Q (adminLogOf w'.db t) s' w') :
    wp (discipline base spec) i c (findAdminLog t.referenceId) Q E s w := by
  cases hr : t.referenceId with
  | none =>
    have hQ' := hQ s w h (.refl hw)
    rw [adminLogOf, hr] at hQ'
    exact hQ'
  | some logId =>
    rw [findAdminLog, wp_bind]
    apply wp_select_out h (fun w' hal => hfault _ w' hal rfl)
    intro s₁ w₁ htx₁ hal₁
    have hQ' := hQ s₁ w₁ htx₁ hal₁
    rw [adminLogOf, hr] at hQ'
    exact hQ'

theorem wp_findReplay {params : AdjustPointsParams} {key : String}
    {Q : Option AdjustPointsResult → Local sql → World sql → Prop} (h : s.tx = none)
    (hfault : ∀ s' w', Along (discipline base spec) i s w s' w' → s'.faulted = true → E .fault s' w')
    (hnone : ∀ s' w', s'.tx = none → Along (discipline base spec) i s w s' w' →
      w'.read .findByIdempotencyKey ∈ s'.trace → w'.db.transactionOf key = none → Q none s' w')
    (hreused : ∀ t s' w', Along (discipline base spec) i s w s' w' →
      w'.db.transactionOf key = some t → matchesIn w'.db t params = false →
      E .adjustmentIdempotencyKeyReused s' w')
    (hsome : ∀ t s' w', s'.tx = none → Along (discipline base spec) i s w s' w' →
      w'.db.transactionOf key = some t → matchesIn w'.db t params = true →
      Q (some (replayResult t)) s' w') :
    wp (discipline base spec) i c (findReplay key params) Q E s w := by
  rw [findReplay, wp_bind]
  apply wp_read h (fun w' hal => hfault _ w' hal rfl)
  intro s₁ w₁ htx₁ hal₁ htr₁
  cases ht : w₁.db.transactionOf key with
  | none => exact hnone s₁ w₁ htx₁ hal₁ (htr₁ ▸ List.mem_cons_self) ht
  | some t =>
    change wp _ _ _ (Prog.select _ >>= _) _ _ _ _
    rw [wp_bind]
    apply wp_select_out htx₁ (fun w' hal => hfault _ w' (hal₁.trans hal) rfl)
    intro s₂ w₂ htx₂ hal₂
    have hal₂' := hal₁.trans hal₂
    rw [wp_bind]
    refine wp_findAdminLog htx₂ hal₂.rely.ok (fun s' w' hal => hfault s' w' (hal₂'.trans hal))
      fun s₃ w₃ htx₃ hal₃ => ?_
    have hal₃' := hal₂'.trans hal₃
    have ht₃ := Grows.transactionOf (hal₂.trans hal₃).rely.le ht
    have hmatch : matchesReplay t (w₂.db.accountOf params.targetUserId) (adminLogOf w₃.db t) params =
        matchesIn w₃.db t params := by
      rw [matchesIn, matchesReplay, matchesReplay, accountOf_id hal₃.rely.le]
    rw [wp_bind, wp_require]
    constructor
    · exact fun hm => hsome t s₃ w₃ htx₃ hal₃' ht₃ (hmatch ▸ hm)
    · exact fun hm => hreused t s₃ w₃ hal₃' ht₃ (hmatch ▸ by simpa using hm)

theorem wp_adjustmentTransaction {params : AdjustPointsParams} {key : String}
    {Q : AdjustPointsResult → Local sql → World sql → Prop}
    (hkey : requireKey params.idempotencyKey = .ok key) (h : s.In start [] [])
    (hE : ∀ e s' w', Along (discipline base spec) i s w s' w' → E e s' w')
    (hQ : ∀ l t held s' w', s'.In start (.insertAdminLog l :: post t) held →
      Along (discipline base spec) i s w s' w' →
      (∀ w'', Rely (discipline base spec) i s' w' w'' → Adjusts params key l t w''.db) →
      Q (adjustedResult l.id (PointsLedgerService.toResult t false)) s' w') :
    wp (discipline base spec) i c (adjustmentTransaction key params) Q E s w := by
  rw [adjustmentTransaction, wp_bind]
  apply wp_fresh_known
  intro logId w₁ hnew hal₁
  have hin₁ := h.mint logId
  rw [wp_bind, wp_require]
  refine ⟨fun hfit => ?_, fun _ => hE _ _ w₁ hal₁⟩
  rw [wp_bind]
  refine hin₁.wp_exec (fun w' hal => hE _ _ w' (hal₁.trans hal)) (fun w' _ x hx r hr => ?_)
    fun s₂ w₂ v hv hin₂ hal₂ _ => ?_
  · split at hx
    · obtain rfl : x = .insertAdminLog (logRow logId params) := by simpa using hx
      have hr' : r = .id logId := by simpa [discipline, footprint, logRow] using hr
      simp [hr']
    · cases hx
  subst hv
  have hal₂' := hal₁.trans hal₂
  rw [wp_bind, wp_require]
  refine ⟨fun hadmin => ?_, fun _ => hE _ s₂ w₂ hal₂'⟩
  have hadmin' : params.adminId ∈ w₂.db.adminUsers := hadmin
  rw [if_pos hadmin] at hin₂
  rw [wp_bind]
  refine PointsLedgerService.wp_mutateWithinTransaction hal₂.rely.ok hin₂ (fun _ => rfl)
    (fun _ => rfl) (fun e s' w' hal _ => hE e s' w' (hal₂'.trans hal)) fun t s₃ w₃ hin₃ hal₃ hpost => ?_
  rw [wp_pure]
  apply hQ (logRow logId params) t _ s₃ w₃ hin₃ (hal₂'.trans hal₃)
  intro w'' hr
  have hal₃'' := (hal₂.trans hal₃).rely' hr
  have hnew'' := hal₃''.rely.agree (.id logId) (hin₁.held _ (by simp))
  exact {
    valid := hkey
    log := rfl
    fits := hfit
    admin := (hal₃.rely' hr).rely.le.adminUsers ▸ hadmin'
    fresh := fun hk => hnew (hnew'' hk)
    entry := hpost.stable (fun r hr => hin₃.held r (by simp [hr])) hr }

theorem adjust_verified {allowed : Call → Prop} {params : AdjustPointsParams}
    (hall : allowed (.adjust params)) (hw : w.Ok (protocol base allowed)) (hown : own i w.log = []) :
    Safe (protocol base allowed) (done base) i ⟨.adjust params, body (.adjust params), .idle⟩ w := by
  have hfail {e : Err} {s' : Local sql} {w' : World sql}
      (hal : Along (protocol base allowed) i .idle w s' w') :
      Done base i s' w' (.adjust params) (.error e) := .failed (hal.own.trans hown) trivial
  change wp _ _ _ (adjust params >>= _) _ _ _ _
  rw [wp_bind, adjust, wp_bind, wp_check]
  refine ⟨fun key hkey => ?_, fun e _ => hfail (.refl hw)⟩
  rw [wp_bind]
  apply wp_select_out rfl (fun w' hal => hfail hal)
  intro s₀ w₀ htx₀ hal₀
  rw [wp_bind, wp_require]
  refine ⟨fun _ => ?_, fun _ => hfail hal₀⟩
  refine wp_idempotent _ _ (wp_findReplay htx₀ (fun s₁ w₁ hal _ => hfail (hal₀.trans hal)) ?_
    (fun t s₁ w₁ hal _ _ => hfail (hal₀.trans hal)) ?_)
  · intro s₁ w₁ htx hal₁ _ _
    have hal := hal₀.trans hal₁
    refine wp_transaction_out htx (fun s₂ w₂ hin hal₂ => ?_) fun s' w' _ _ hal' => ?_
    · apply wp_adjustmentTransaction hkey hin
      · intro e s' w' hal' w'' hr
        have hal'' := hal.trans (((hal₂.trans hal').rely' hr).ended htx)
        refine ⟨fun _ => hfail hal'', fun _ => ?_⟩
        apply wp_findReplay rfl
        · exact fun s₃ w₃ hal₃ _ => hfail (hal''.trans hal₃)
        · exact fun s₃ w₃ _ hal₃ _ _ => hfail (hal''.trans hal₃)
        · exact fun t s₃ w₃ hal₃ _ _ => hfail (hal''.trans hal₃)
        · exact fun t s₃ w₃ _ hal₃ ht _ =>
            .adjustmentReplayed ((hal''.trans hal₃).own.trans hown) hkey ht
      · intro l t held s' w' hin' hal' hadj
        refine ⟨_, _, hin', hal₂.trans hal', fun w'' hr => ⟨⟨hall, key, l, t, rfl, hadj w'' hr⟩, ?_⟩⟩
        exact fun hown' => .adjusted (own_push rfl (hown'.trans (hal.own.trans hown))) rfl
    · exact ⟨fun _ => hfail (hal.trans hal'), nofun⟩
  · exact fun t s₁ w₁ _ hal ht _ => .adjustmentReplayed ((hal₀.trans hal).own.trans hown) hkey ht

end JitoGame.AdminPointsService
