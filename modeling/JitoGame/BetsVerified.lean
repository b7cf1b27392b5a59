import JitoGame.PointsVerified

namespace JitoGame.BetsService

open Transactions

variable {base : Db} {spec : Commit sql → Db → Prop} {i : ℕ} {c : Call}
variable {s : Local sql} {w : World sql} {E : Err → Local sql → World sql → Prop} {start : ℕ}

theorem fits_betRow (p : Placement) (u b b' r r' : Uuid) (n n' : ℕ) :
    (betRow b u r p n).fits = (betRow b' u r' p n').fits := rfl

theorem validateRound_ok {gameId : GameId} {d : Db} {roundId : Uuid} {now : ℕ} {round : RoundLockRow}
    (h : validateRound gameId (lockRow d roundId now) = .ok round) :
    ∃ r, d.roundOf roundId = some r ∧ round.id = roundId ∧ r.gameId = gameId ∧
      r.state.lockable = true ∧ now < r.bettingDeadline := by
  cases hr : d.roundOf roundId with
  | none => simp only [lockRow, hr, Option.map_none, validateRound] at h; cases h
  | some r =>
    have hid : r.id = roundId := by simpa using List.find?_some hr
    simp only [lockRow, hr, Option.map_some, validateRound] at h
    split at h
    · cases h
    split at h
    · cases h
    split at h
    · cases h
    cases h
    rename_i hg hs hd
    refine ⟨r, rfl, hid, by simpa using hg, ?_, by simpa using hd⟩
    simp only [RoundState.lockable, decide_eq_true_eq]
    tauto

def Late (params : PlaceBetParams) (trace : List (Mark sql)) : Prop :=
  ∃ m rest id r, trace = m :: rest ∧ m.tag = .lockRound ∧
    Uuid.parse params.dto.roundId = some id ∧ m.db.roundOf id = some r ∧ r.bettingDeadline ≤ m.now

theorem validateRound_late {gameId : GameId} {d : Db} {id : Uuid} {now : ℕ}
    (h : validateRound gameId (lockRow d id now) = .error .deadlinePassed) :
    ∃ r, d.roundOf id = some r ∧ r.bettingDeadline ≤ now := by
  cases hr : d.roundOf id with
  | none => simp only [lockRow, hr, Option.map_none, validateRound] at h; cases h
  | some r =>
    simp only [lockRow, hr, Option.map_some, validateRound] at h
    split at h
    · cases h
    split at h
    · cases h
    split at h
    · rename_i hd
      exact ⟨r, rfl, of_decide_eq_true hd⟩
    · cases h

theorem validateAccount_in_time {userId : Uuid} {direction : TxnDirection} {amountMinor : ℤ}
    {allowOverdraw : Bool} {o : Option PointsAccount} :
    PointsLedgerService.validateAccount userId direction amountMinor allowOverdraw o ≠
      .error .deadlinePassed := by
  intro h
  cases o with
  | none => cases h
  | some a =>
    simp only [PointsLedgerService.validateAccount] at h
    split at h <;> cases h

theorem wp_lockRound {roundId : String} {Q : Option RoundLockRow → Local sql → World sql → Prop}
    (h : s.In start [] []) (hbad : Uuid.parse roundId = none → E .databaseError s w)
    (hfault : ∀ s' w', Along (discipline base spec) i s w s' w' → s'.faulted = true → E .fault s' w')
    (hQ : ∀ id m s' w', Uuid.parse roundId = some id →
      (∀ r, w'.db.roundOf id = some r →
        s'.In start [] [.row (.round id)] ∧ m.lock = some (.round id)) →
      Along (discipline base spec) i s w s' w' → s'.trace = m :: s.trace → m.tag = .lockRound →
      m.now = start → m.db = w'.db → Q (lockRow w'.db id start) s' w') :
    wp (discipline base spec) i c (lockRound roundId) Q E s w := by
  cases hid : Uuid.parse roundId with
  | none => simp only [lockRound, hid]; exact hbad hid
  | some id =>
    simp only [lockRound, hid]
    rw [wp_bind]
    refine h.wp_exec (fun w' hal => hfault _ w' hal rfl) (fun _ _ _ hx => by cases hx)
      fun s' w' v hv hin hal htr => ?_
    subst hv
    rw [wp_pure]
    refine hQ id _ s' w' hid (fun r hr => ?_) hal htr rfl rfl rfl
    have hrid : r.id = id := by simpa using List.find?_some hr
    have hr' : (applyAll (S := sql) [] w'.db).roundOf id = some r := hr
    rw [hr'] at hin
    simpa [hr', hrid] using hin

theorem wp_placementTransaction {params : PlaceBetParams} {p : Placement}
    {Q : PlaceBetResult → Local sql → World sql → Prop} (hp : validate params = .ok p)
    (hw : w.Ok (discipline base spec)) (h : s.In start [] [])
    (hE : ∀ e s' w', Along (discipline base spec) i s w s' w' →
      (∀ w'', Rely (discipline base spec) i s' w' w'' → e ≠ .uniqueViolation →
        PlacementFailure params s'.ended w''.db e) →
      (e = .deadlinePassed → Late params s'.trace) → E e s' w')
    (hQ : ∀ b t held s' w', s'.In start (placed p b t) held →
      Along (discipline base spec) i s w s' w' →
      (∀ w'', Rely (discipline base spec) i s' w' w'' → Places params p b t start s'.trace w''.db) →
      Q (placedResult b params.dto.roundId (PointsLedgerService.toResult t false)) s' w') :
    wp (discipline base spec) i c (placementTransaction params.userId params.dto p) Q E s w := by
  rw [placementTransaction, wp_bind]
  refine wp_lockRound h ?_ ?_ fun roundId m₁ s₁ w₁ hid hhold hal₁ htr₁ htag₁ hnow₁ hdb₁ => ?_
  · exact fun hbad => hE _ s w (.refl hw) (fun _ _ _ => .roundId hbad) nofun
  · exact fun s' w' hal hf => hE _ s' w' hal (fun _ _ _ => .fault hf) nofun
  have hm₁ : m₁ ∈ s₁.trace := htr₁ ▸ List.mem_cons_self
  rw [wp_bind, wp_check]
  constructor
  swap
  · intro e he
    refine hE e s₁ w₁ hal₁ (fun w'' hr _ => .round hid hm₁ htag₁ (fun hsome => ?_) ?_) fun hlate => ?_
    · obtain ⟨r, hr'⟩ := Option.isSome_iff_exists.mp (hdb₁ ▸ hsome)
      rw [hdb₁]
      exact (hr.agree (.row (.round roundId)) ((hhold r hr').1.held _ (by simp))).2
    · rw [hdb₁, hnow₁]; exact he
    · subst hlate
      obtain ⟨r, hr, hd⟩ := validateRound_late he
      exact ⟨m₁, s.trace, roundId, r, htr₁, htag₁, hid, hdb₁ ▸ hr, hnow₁ ▸ hd⟩
  intro round hround
  obtain ⟨r, hr, hrid, hgame, hopen, hdead⟩ := validateRound_ok hround
  obtain ⟨hin₁, hlock₁⟩ := hhold r hr
  have hbets {s' : Local sql} {w' w'' : World sql} (hal : Along (discipline base spec) i s₁ w₁ s' w')
      (hr' : Rely (discipline base spec) i s' w' w'') :
      w''.db.bets.filter (fun b => b.roundId = roundId) =
        w'.db.bets.filter fun b => b.roundId = roundId :=
    (hr'.agree (.row (.round roundId)) (hal.holds _ (hin₁.held _ (by simp)))).2
  rw [wp_bind]
  apply PointsLedgerService.wp_lockAndValidateAccount hin₁ (fun _ => rfl)
  · exact fun hle => hE _ s₁ w₁ hal₁ (fun _ _ _ => .amount hp hle) nofun
  · exact fun s' w' _ hal hf => hE _ s' w' (hal₁.trans hal) (fun _ _ _ => .fault hf) nofun
  · intro e m s' w' hal hm htag hdb _ hval
    refine hE e s' w' (hal₁.trans hal) (fun w'' hr' _ => ?_) fun hlate => ?_
    · exact .account hid hp hm htag (hdb ▸ hbets hal hr') (hdb ▸ hval)
    · exact absurd (hlate ▸ hval) validateAccount_in_time
  intro a locked m₂ s₂ w₂ hin₂ hal₂ _ _ _ hacc hval
  have hal₂' := hal₁.trans hal₂
  have hlid := PointsLedgerService.validateAccount_id hval
  rw [wp_bind]
  apply wp_fresh_known
  intro betId w₃ hnew hal₃
  have hin₃ := hin₂.mint betId
  rw [wp_bind]
  apply wp_outside_along
  intro acceptedAt w₄ hal₄
  have hal₄' := hal₂'.trans (hal₃.trans hal₄)
  rw [wp_bind, wp_require]
  constructor
  swap
  · intro hfit
    refine hE _ _ w₄ hal₄' (fun _ _ _ => .row hp fun b' r' n' => ?_) nofun
    rw [fits_betRow p params.userId b' betId r' round.id n' acceptedAt]
    simpa using hfit
  intro hfit
  rw [wp_bind]
  refine wp_insert hin₃ (fun w' hal => hE _ _ w' (hal₄'.trans hal) (fun _ _ _ => .fault rfl) nofun) ?_
    (fun s' w' _ hal _ => hE _ s' w' (hal₄'.trans hal) (fun _ _ hne => absurd rfl hne) nofun)
    fun s₅ w₅ hin₅ hal₅ ht => ?_
  · intro x hx r' hr'
    obtain rfl : x = .insertBet (betRow betId params.userId round.id p acceptedAt) := by simpa using hx
    have hf : r' = .row (.betKey params.userId p.idempotencyKey) ∨ r' = .row (.round round.id) ∨
        r' = .id betId := by simpa [discipline, footprint, betRow] using hr'
    rcases hf with rfl | rfl | rfl <;> simp [hrid]
  have hunused : w₅.db.betOf params.userId p.idempotencyKey = none := by
    have ht' : (w₅.db.betOf params.userId p.idempotencyKey).isSome = false := ht
    simpa using ht'
  -- the key is ours until the end of the transaction
  have hlate {s' : Local sql} {w' : World sql} {e : Err}
      (hal : Along (discipline base spec) i s₅ w₅ s' w') (he : e.status = none) : E e s' w' := by
    refine hE e s' w' (hal₄'.trans (hal₅.trans hal)) (fun w'' hr' _ => ?_) fun hlate => ?_
    swap
    · rw [hlate] at he
      cases he
    have hkey := (hal.rely' hr').rely.agree (.row (.betKey params.userId p.idempotencyKey))
      (hin₅.held _ (by simp))
    exact .absent hp (Eq.trans hkey hunused)
  rw [wp_bind, wp_require]
  refine ⟨fun hitems => ?_, fun _ => hlate (.refl hal₅.rely.ok) rfl⟩
  rw [wp_bind]
  refine hin₅.wp_exec (fun w' hal => hlate hal rfl) ?_ fun s₆ w₆ v hv hin₆ hal₆ _ => ?_
  · intro w' _ x hx r' hr'
    obtain rfl : x = .insertBetItems (itemRows betId p) := by simpa using hx
    obtain ⟨item, hitem, rfl⟩ := List.mem_map.mp hr'
    obtain ⟨m, -, rfl⟩ := List.mem_map.mp hitem
    simp
  rw [wp_bind]
  refine PointsLedgerService.wp_commitMutation hin₆ (by simp [hlid]) (fun _ => rfl)
    (fun e s' w' hal _ _ he => hlate (hal₆.trans hal) he) ?_
  intro id n s₇ w₇ row hin₇ hal₇ hrow hidnew hkeynew
  rw [wp_pure]
  have hal₅₇ := hal₆.trans hal₇
  have hal₃₇ := hal₄.trans (hal₅.trans hal₅₇)
  have hal₂₇ := hal₃.trans hal₃₇
  have hal₁₇ := hal₂.trans hal₂₇
  refine hQ (betRow betId params.userId round.id p acceptedAt) row _ s₇ w₇ hin₇ (hal₁.trans hal₁₇)
    fun w'' hr' => ?_
  have hround := (hal₁₇.rely' hr').rely.agree (.row (.round roundId)) (hin₁.held _ (by simp))
  have hacc'' := (hal₂₇.rely' hr').rely.agree (.row (.account a.id)) (hin₂.held _ (by simp))
  have hnew'' := (hal₃₇.rely' hr').rely.agree (.id betId) (hin₃.held _ (by simp))
  have hunused'' := (hal₅₇.rely' hr').rely.agree (.row (.betKey params.userId p.idempotencyKey))
    (hin₅.held _ (by simp))
  have hid'' := hr'.agree (.id id) (hin₇.held _ (by simp))
  have hkey'' := hr'.agree (.row (.ledgerKey (ledgerIdempotencyKey betId))) (hin₇.held _ (by simp))
  exact {
    valid := hp
    roundId := by rw [hid, ← hrid]; rfl
    bet := rfl
    fits := hfit
    itemsFit := hitems
    round := ⟨r, hrid ▸ hround.1 r hr, hgame, hopen, hdead⟩
    checked := ⟨m₁, hal₁₇.trace.subset hm₁, htag₁, hrid ▸ hlock₁, hnow₁, r, hdb₁ ▸ hrid ▸ hr, hdead⟩
    fresh := fun hk => hnew (hnew'' hk)
    unused := Eq.trans hunused'' hunused
    entry := ⟨⟨a, locked, hacc''.2 _ a hacc rfl, hval, rfl⟩, hrow, fun hk => hidnew (hid'' hk),
      Eq.trans hkey'' hkeynew⟩ }

theorem wp_findReplay {userId : Uuid} {roundId : String} {p : Placement}
    {Q : Option PlaceBetResult → Local sql → World sql → Prop} (h : s.tx = none)
    (hfault : ∀ s' w', s'.tx = none → Along (discipline base spec) i s w s' w' →
      s'.faulted = true → E .fault s' w')
    (hnone : ∀ s' w', s'.tx = none → Along (discipline base spec) i s w s' w' →
      s'.trace = w'.read .findBet :: s.trace → w'.db.betOf userId p.idempotencyKey = none →
      Q none s' w')
    (hreused : ∀ b s' w', s'.tx = none → Along (discipline base spec) i s w s' w' →
      s'.trace = w'.read .findBet :: s.trace → w'.db.betOf userId p.idempotencyKey = some b →
      matchesReplay b (w'.db.itemsOf b.id) roundId p = false → E .betIdempotencyKeyReused s' w')
    (hsome : ∀ b (w₁ : World sql) s' w', s'.tx = none → Along (discipline base spec) i s w s' w' →
      w₁.Ok (discipline base spec) → w₁.log <:+ w'.log → Grows w₁.db w'.db →
      s'.trace = w'.read .findBetDebit :: w₁.read .findBet :: s.trace →
      w₁.db.betOf userId p.idempotencyKey = some b →
      matchesReplay b (w₁.db.itemsOf b.id) roundId p = true →
      Q (some (replayResult b (w'.db.debitOf b.id))) s' w') :
    wp (discipline base spec) i c (findReplay userId roundId p) Q E s w := by
  rw [findReplay, wp_bind]
  apply wp_read h (fun w' hal => hfault _ w' h hal rfl)
  intro s₁ w₁ htx₁ hal₁ htr₁
  cases hb : w₁.db.betOf userId p.idempotencyKey with
  | none => exact hnone s₁ w₁ htx₁ hal₁ htr₁ hb
  | some b =>
    change wp _ _ _ (require _ _ >>= _) _ _ _ _
    rw [wp_bind, wp_require]
    refine ⟨fun hm => ?_, fun hm => hreused b s₁ w₁ htx₁ hal₁ htr₁ hb (by simpa using hm)⟩
    rw [wp_bind]
    refine wp_read htx₁ (fun w' hal => hfault _ w' htx₁ (hal₁.trans hal) rfl)
      fun s₂ w₂ htx₂ hal₂ htr₂ => ?_
    exact hsome b w₁ s₂ w₂ htx₂ (hal₁.trans hal₂) hal₁.rely.ok hal₂.rely.log hal₂.rely.le
      (htr₁ ▸ htr₂) hb hm

theorem placeBet_verified {allowed : Call → Prop} {params : PlaceBetParams}
    (hall : allowed (.placeBet params)) (hw : w.Ok (protocol base allowed)) (hown : own i w.log = []) :
    Safe (protocol base allowed) (done base) i ⟨.placeBet params, body (.placeBet params), .idle⟩ w := by
  have hfail {e : Err} {s' : Local sql} {w' : World sql}
      (hal : Along (protocol base allowed) i .idle w s' w') (he : PlacementFailure params s' w'.db e) :
      Done base i s' w' (.placeBet params) (.error e) := .failed (hal.own.trans hown) he
  change wp _ _ _ (placeBet params >>= _) _ _ _ _
  rw [wp_bind, placeBet, wp_bind, wp_check]
  refine ⟨fun p hp => ?_, fun e he => hfail (.refl hw) (.invalid he)⟩
  have hreplay {b : Bet} {w₁ : World sql} {s' : Local sql} {w' : World sql}
      (hal : Along (protocol base allowed) i .idle w s' w') (hw₁ : w₁.Ok (protocol base allowed))
      (hl : w₁.log <:+ w'.log) (hle : Grows w₁.db w'.db)
      (hb : w₁.db.betOf params.userId p.idempotencyKey = some b)
      (hm : matchesReplay b (w₁.db.itemsOf b.id) params.dto.roundId p = true) :
      Done base i s' w' (.placeBet params) (.ok (.bet (replayResult b (w'.db.debitOf b.id)))) := by
    have hdb : w₁.db = replay base w₁.log := hw₁.db_eq
    exact .betReplayed (hal.own.trans hown) hp (hle.betOf hb) hl (hdb ▸ hb) (hdb ▸ hm)
  refine wp_idempotent _ _ (wp_findReplay rfl (fun s₁ w₁ _ hal hf => hfail hal (.fault hf)) ?_ ?_ ?_)
  · intro s₁ w₁ htx hal _ _
    refine wp_transaction_out htx (fun s₂ w₂ hin hal₂ => ?_) fun s' w' _ hf hal' => ?_
    · apply wp_placementTransaction hp hal₂.rely.ok hin
      · intro e s' w' hal' hwhy _ w'' hr
        have hal'' := hal.trans (((hal₂.trans hal').rely' hr).ended htx)
        refine ⟨fun hne => hfail hal'' (hwhy w'' hr hne), fun _ => ?_⟩
        apply wp_findReplay rfl
        · exact fun s₃ w₃ _ hal₃ hf => hfail (hal''.trans hal₃) (.fault hf)
        · exact fun s₃ w₃ _ hal₃ _ hb => hfail (hal''.trans hal₃) (.absent hp hb)
        · exact fun b s₃ w₃ _ hal₃ _ hb hm => hfail (hal''.trans hal₃) (.reused hp hb hm)
        · exact fun b w₁ s₃ w₃ _ hal₃ hw₁ hl hle _ hb hm =>
            hreplay (hal''.trans hal₃) hw₁ hl hle hb hm
      · intro b t held s' w' hin' hal' hplaces
        refine ⟨_, _, hin', hal₂.trans hal', fun w'' hr => ⟨⟨hall, p, b, t, rfl, hplaces w'' hr⟩, ?_⟩⟩
        exact fun hown' => .placed (own_push rfl (hown'.trans (hal.own.trans hown))) hp rfl
    · exact ⟨fun _ => hfail (hal.trans hal') (.fault hf), nofun⟩
  · exact fun b s₁ w₁ _ hal _ hb hm => hfail hal (.reused hp hb hm)
  · exact fun b w₁ s' w' _ hal hw₁ hl hle _ hb hm => hreplay hal hw₁ hl hle hb hm

end JitoGame.BetsService
