import JitoGame.Players
import JitoGame.PointsAlone

namespace JitoGame

open Transactions BetsService

/-! A request that is served alone. -/

def Clocked (now : ℕ) (s : Local sql) : Prop := ∀ m ∈ s.trace, m.tag = .lockRound → m.now = now

abbrev AtRest (d : Db) (w : World sql) : Prop := Still Db.Mentions d 0 w

variable {d : Db} {c : Call} {s : Local sql} {w : World sql} {start : ℕ} {params : PlaceBetParams}
variable {p : Placement} {E : Err → Local sql → World sql → Prop}

theorem Placement.fits_rows {roundId : String} {balanceMinor : ℤ}
    (h : p.fits roundId balanceMinor = true) (hpos : 0 < p.totalAmountMinor)
    (hcovered : ¬ balanceMinor < p.totalAmountMinor) (accountId betId userId roundUuid id : Uuid)
    (n m : ℕ) : (betRow betId userId roundUuid p n).fits = true ∧
      (itemRows betId p).all BetItem.fits = true ∧
      (PointsLedgerService.transactionRow ⟨accountId, .debit, p.totalAmountMinor, balanceMinor,
        balanceMinor - p.totalAmountMinor⟩ ⟨.betPlaced, some betId, ledgerIdempotencyKey betId,
          some (description roundId)⟩ id m).fits = true := by
  simp only [Placement.fits, decide_eq_true_eq] at h
  obtain ⟨htotal, hkey, hmerged, hbefore, hafter, hdescription⟩ := h
  refine ⟨decide_eq_true ⟨htotal, hkey, hpos⟩, ?_, ?_⟩
  · rw [itemRows, List.all_map]
    exact hmerged
  · have hkept : 0 ≤ balanceMinor - p.totalAmountMinor := Int.sub_nonneg.mpr (Int.not_lt.mp hcovered)
    exact decide_eq_true ⟨htotal, hbefore, hafter, fits_ledgerIdempotencyKey betId, hdescription, hpos,
      hkept, rfl⟩

theorem validateRound_ne {gameId : GameId} {o : Option RoundLockRow} :
    validateRound gameId o ≠ .error .uniqueViolation := by
  intro h
  cases o with
  | none => cases h
  | some round =>
    rw [validateRound] at h
    split at h
    · cases h
    split at h
    · cases h
    split at h <;> cases h

theorem validateAccount_ne {userId : Uuid} {direction : TxnDirection} {amountMinor : ℤ}
    {allowOverdraw : Bool} {o : Option PointsAccount} :
    PointsLedgerService.validateAccount userId direction amountMinor allowOverdraw o ≠
      .error .uniqueViolation := by
  intro h
  cases o with
  | none => cases h
  | some a =>
    rw [PointsLedgerService.validateAccount] at h
    split at h <;> cases h

theorem Player.bet_unparsed {pl : Player} {rounds : List GameRound} {now : ℕ}
    (h : Uuid.parse params.dto.roundId = none) : pl.bet rounds now params p = .error .databaseError := by
  rw [Player.bet, h]
  rfl

section Bet

variable {roundId : Uuid} (hid : Uuid.parse params.dto.roundId = some roundId)

include hid

theorem Player.bet_round {e : Err}
    (h : validateRound params.dto.gameId (lockRow d roundId start) = .error e) :
    (playerOf d params.userId).bet d.rounds start params p = .error e := by
  rw [Player.bet, hid]
  change (validateRound params.dto.gameId (lockRow d roundId start) >>= _) = _
  rw [h]
  rfl

variable {round : RoundLockRow}
variable (hround : validateRound params.dto.gameId (lockRow d roundId start) = .ok round)

include hround

theorem Player.bet_amount (hpos : p.totalAmountMinor ≤ 0) :
    (playerOf d params.userId).bet d.rounds start params p = .error .amountNotPositive := by
  rw [Player.bet, hid]
  change (validateRound params.dto.gameId (lockRow d roundId start) >>= _) = _
  rw [hround]
  change (PointsLedgerService.assertPositiveAmount p.totalAmountMinor >>= _) = _
  rw [PointsLedgerService.assertPositiveAmount, if_pos hpos]
  rfl

theorem Player.bet_balance (hpos : 0 < p.totalAmountMinor) :
    (playerOf d params.userId).bet d.rounds start params p =
      match (d.accountOf params.userId).map (·.balanceMinor) with
      | none => throw (.noPointsAccount params.userId)
      | some balanceMinor =>
        if balanceMinor < p.totalAmountMinor then
          throw (.insufficientPoints p.totalAmountMinor balanceMinor)
        else if p.fits params.dto.roundId balanceMinor then
          pure (accepted params.dto p balanceMinor,
            (playerOf d params.userId).accept roundId p balanceMinor)
        else throw .databaseError := by
  rw [Player.bet, hid]
  change (validateRound params.dto.gameId (lockRow d roundId start) >>= _) = _
  rw [hround]
  change (PointsLedgerService.assertPositiveAmount p.totalAmountMinor >>= _) = _
  rw [PointsLedgerService.assertPositiveAmount, if_neg (Int.not_le.mpr hpos)]
  rfl

theorem Player.bet_account (hpos : 0 < p.totalAmountMinor) {e : Err}
    (h : PointsLedgerService.validateAccount params.userId .debit p.totalAmountMinor false
      (d.accountOf params.userId) = .error e) :
    (playerOf d params.userId).bet d.rounds start params p = .error e := by
  rw [Player.bet_balance hid hround hpos]
  cases ha : d.accountOf params.userId with
  | none =>
    rw [ha] at h
    cases h
    rfl
  | some a =>
    rw [ha, PointsLedgerService.validateAccount] at h
    split at h
    · rename_i hover
      have hlt : a.balanceMinor < p.totalAmountMinor := Int.lt_of_sub_neg hover.2
      cases h
      exact if_pos hlt
    · cases h

theorem Player.bet_locked (hpos : 0 < p.totalAmountMinor) {locked : LockedAccountMutation}
    (h : PointsLedgerService.validateAccount params.userId .debit p.totalAmountMinor false
      (d.accountOf params.userId) = .ok locked) (betId userId roundUuid id : Uuid) (n m : ℕ)
    (hfit : ¬ ((betRow betId userId roundUuid p n).fits = true ∧
      (itemRows betId p).all BetItem.fits = true ∧ (PointsLedgerService.transactionRow locked
        ⟨.betPlaced, some betId, ledgerIdempotencyKey betId,
          some (description params.dto.roundId)⟩ id m).fits = true)) :
    (playerOf d params.userId).bet d.rounds start params p = .error .databaseError := by
  rw [Player.bet_balance hid hround hpos]
  cases ha : d.accountOf params.userId with
  | none => rw [ha] at h; cases h
  | some a =>
    rw [ha, PointsLedgerService.validateAccount] at h
    split at h
    · cases h
    rename_i hover
    have hcovered : ¬ a.balanceMinor < p.totalAmountMinor :=
      fun hlt => hover ⟨rfl, Int.sub_neg_of_lt hlt⟩
    cases h
    have hno : ¬ p.fits params.dto.roundId a.balanceMinor = true :=
      fun hfits => hfit (Placement.fits_rows hfits hpos hcovered _ _ _ _ _ _ _)
    exact (if_neg hcovered).trans (if_neg hno)

end Bet

namespace AtRest

theorem wp_lockRound (hw : AtRest d w) (h : s.Running start [] []) {roundId : String}
    {Q : Option RoundLockRow → Local sql → World sql → Prop}
    (hbad : Uuid.parse roundId = none → E .databaseError s w)
    (hE : ∀ s' w', s'.faulted = true → AtRest d w' → E .fault s' w')
    (hQ : ∀ id m s' w', Uuid.parse roundId = some id → m.tag = .lockRound → m.now = start →
      s'.Running start [] [m] → AtRest d w' → Q (lockRow d id start) s' w') :
    wp (.sole Db.Mentions d 0) 0 c (lockRound roundId) Q E s w := by
  cases hid : Uuid.parse roundId with
  | none =>
    simp only [lockRound, hid]
    exact hbad hid
  | some id =>
    simp only [lockRound, hid]
    rw [wp_bind]
    exact hw.wp_exec h hE fun m s' w' htag hnow hrun hw' => hQ id m s' w' hid htag hnow hrun hw'

theorem wp_placementTransaction (hb : d.betOf params.userId p.idempotencyKey = none)
    (hw : AtRest d w) (h : s.Running start [] []) {Q : PlaceBetResult → Local sql → World sql → Prop}
    (hfault : ∀ s' w', s'.faulted = true → AtRest d w' → E .fault s' w')
    (hE : ∀ e s' w', s'.faulted = false → AtRest d w' → e ≠ .uniqueViolation →
      (∀ now, Clocked now s' → (playerOf d params.userId).bet d.rounds now params p = .error e) →
      E e s' w')
    (hQ : ∀ result b row s' w', ¬ d.Mentions b.id → s'.Running start (placed p b row) [] →
      AtRest d w' → Q result s' w') :
    wp (.sole Db.Mentions d 0) 0 c (placementTransaction params.userId params.dto p) Q E s w := by
  rw [placementTransaction, wp_bind]
  refine hw.wp_lockRound h ?_ hfault fun roundId m s₁ w₁ hid htag hnow hrun₁ hw₁ => ?_
  · exact fun hbad => hE _ s w h.clean hw (fun he => by cases he) fun _ _ => Player.bet_unparsed hbad
  -- from here on the time of the check is that of the transaction
  have hrefuse {e : Err} {ws : List Write} {s' : Local sql} {w' : World sql}
      (hrun : s'.Running start ws [m]) (hw' : AtRest d w') (hne : e ≠ .uniqueViolation)
      (hbet : (playerOf d params.userId).bet d.rounds start params p = .error e) : E e s' w' := by
    apply hE e s' w' hrun.clean hw' hne
    intro now hclock
    have hstart := hclock m (hrun.trace List.mem_cons_self) htag
    rw [← hstart, hnow]
    exact hbet
  rw [wp_bind, wp_check]
  constructor
  swap
  · intro e he
    exact hrefuse hrun₁ hw₁ (fun hne => validateRound_ne (hne ▸ he)) (Player.bet_round hid he)
  intro round hround
  rw [wp_bind]
  refine PointsLedgerService.wp_lockAndValidateAccount_alone hw₁ hrun₁ ?_ hfault ?_ ?_
  · exact fun hpos => hrefuse hrun₁ hw₁ (fun he => by cases he) (Player.bet_amount hid hround hpos)
  · intro e s' w' hpos hrun hw' hval
    exact hrefuse hrun hw' (fun hne => validateAccount_ne (hne ▸ hval))
      (Player.bet_account hid hround hpos hval)
  intro locked s₂ w₂ hpos hrun₂ hw₂ hval
  have hunfit := Player.bet_locked hid hround hpos hval
  rw [wp_bind]
  apply hw₂.wp_fresh
  intro betId w₃ hnew hw₃
  have hrun₃ := hrun₂.mint betId
  rw [wp_bind]
  apply hw₃.wp_outside
  intro acceptedAt w₄ hw₄
  rw [wp_bind, wp_require]
  refine ⟨fun hbet => ?_, fun hbet => ?_⟩
  swap
  · exact hrefuse hrun₃ hw₄ (fun he => by cases he)
      (hunfit betId params.userId round.id betId acceptedAt 0 fun hfit => hbet hfit.1)
  rw [wp_bind]
  refine hw₄.wp_insert hrun₃ hfault ?_ fun s₅ w₅ hrun₅ hw₅ => ?_
  · change (d.betOf params.userId p.idempotencyKey).isSome = false
    rw [hb]
    rfl
  rw [wp_bind, wp_require]
  refine ⟨fun hitems => ?_, fun hitems => ?_⟩
  swap
  · exact hrefuse hrun₅ hw₅ (fun he => by cases he)
      (hunfit betId params.userId round.id betId acceptedAt 0 fun hfit => hitems hfit.2.1)
  rw [wp_bind]
  apply hw₅.wp_exec hrun₅ hfault
  intro m' s₆ w₆ _ _ hrun₆ hw₆
  rw [wp_bind]
  refine PointsLedgerService.wp_commitMutation_alone hw₆ hrun₆.older ?_ hfault ?_ ?_
  · change d.transactionOf (ledgerIdempotencyKey betId) = none
    apply List.find?_eq_none.mpr
    intro t ht hkey
    exact hnew (.inr ⟨t, ht, .inr (by simpa using hkey)⟩)
  · intro id n s' w' hrun hw' hrow
    refine hrefuse hrun hw' (fun he => by cases he)
      (hunfit betId params.userId round.id id acceptedAt n fun hfit => ?_)
    rw [hfit.2.2] at hrow
    cases hrow
  · exact fun result row s' w' _ _ hrun hw' => hQ _ _ row s' w' hnew hrun.older hw'

theorem wp_findReplay (hw : AtRest d w) (htx : s.tx = none) (hclean : s.faulted = false)
    {roundId : String} {Q : Option PlaceBetResult → Local sql → World sql → Prop}
    (hfault : ∀ s' w', s'.faulted = true → AtRest d w' → E .fault s' w')
    (hnone : ∀ s' w', s'.tx = none → s'.faulted = false → AtRest d w' →
      d.betOf params.userId p.idempotencyKey = none → Q none s' w')
    (hreused : ∀ b s' w', s'.faulted = false → AtRest d w' →
      d.betOf params.userId p.idempotencyKey = some b →
      matchesReplay b (d.itemsOf b.id) roundId p = false → E .betIdempotencyKeyReused s' w')
    (hsome : ∀ b s' w', s'.faulted = false → AtRest d w' →
      d.betOf params.userId p.idempotencyKey = some b →
      matchesReplay b (d.itemsOf b.id) roundId p = true →
      Q (some (replayResult b (d.debitOf b.id))) s' w') :
    wp (.sole Db.Mentions d 0) 0 c (findReplay params.userId roundId p) Q E s w := by
  rw [findReplay, wp_bind]
  apply hw.wp_read htx hclean hfault
  intro now s₁ w₁ htx₁ hclean₁ hw₁
  cases hb : d.betOf params.userId p.idempotencyKey with
  | none => exact hnone s₁ w₁ htx₁ hclean₁ hw₁ hb
  | some b =>
    change wp _ _ _ (require (matchesReplay b (d.itemsOf b.id) roundId p = true)
      .betIdempotencyKeyReused >>= _) _ _ _ _
    rw [wp_bind, wp_require]
    refine ⟨fun hm => ?_, fun hm => hreused b s₁ w₁ hclean₁ hw₁ hb (by simpa using hm)⟩
    rw [wp_bind]
    exact hw₁.wp_read htx₁ hclean₁ hfault fun now' s₂ w₂ _ hclean₂ hw₂ => hsome b s₂ w₂ hclean₂ hw₂ hb hm

end AtRest

theorem place_new (hp : validate params = .ok p) (hb : d.betOf params.userId p.idempotencyKey = none)
    (now : ℕ) : (playerOf d params.userId).place d.rounds now params =
      (playerOf d params.userId).bet d.rounds now params p := by
  simp only [Player.place, hp, bind, Except.bind, find_slips, hb, Option.map_none]

theorem place_found {b : Bet} (hp : validate params = .ok p)
    (hb : d.betOf params.userId p.idempotencyKey = some b) (now : ℕ) :
    (playerOf d params.userId).place d.rounds now params =
      if matchesReplay b (d.itemsOf b.id) params.dto.roundId p then
        .ok ((replayResult b (d.debitOf b.id)).reply, playerOf d params.userId)
      else .error .betIdempotencyKeyReused := by
  simp only [Player.place, hp, bind, Except.bind, find_slips, hb, Option.map_some,
    matchesReplay_slipOf, reply_slipOf]
  rfl

structure Answers (d : Db) (params : PlaceBetParams) (r : Except Err Res) (s : Local sql)
    (log : List (Commit sql)) : Prop where
  fault : s.faulted = true → r = .error .fault
  refusal : ∀ e, r = .error e → s.faulted = false → ∀ now, Clocked now s →
    (playerOf d params.userId).place d.rounds now params = .error e
  commits : ∀ c ∈ log, c.call = .placeBet params ∧ c.trace ⊆ s.trace ∧
    ∀ b, .insertBet b ∈ c.writes → ¬ d.Mentions b.id
  replay : ∀ a, r = .ok a → log = [] → ∃ result, a = .bet result ∧ ∀ now,
    (playerOf d params.userId).place d.rounds now params =
      .ok (result.reply, playerOf d params.userId)

theorem AtRest.wp_placeBet (hw : AtRest d w) :
    wp (.sole Db.Mentions d 0) 0 (Call.placeBet params) (body (.placeBet params))
      (fun a s' w' => Answers d params (.ok a) s' w'.log)
      (fun e s' w' => Answers d params (.error e) s' w'.log) .idle w := by
  have hfault (s' : Local sql) (w' : World sql) (hf : s'.faulted = true) (hw' : AtRest d w') :
      Answers d params (.error .fault) s' w'.log := by
    refine ⟨fun _ => rfl, fun e _ hclean => ?_, fun c hc => ?_, fun a ha => by cases ha⟩
    · rw [hf] at hclean
      cases hclean
    · rw [hw'.log] at hc
      cases hc
  have hrefuse {e : Err} {s' : Local sql} {w' : World sql} (hclean : s'.faulted = false)
      (hw' : AtRest d w') (hplace : ∀ now, Clocked now s' →
        (playerOf d params.userId).place d.rounds now params = .error e) :
      Answers d params (.error e) s' w'.log := by
    refine ⟨fun hf => ?_, fun e' he _ now hclock => ?_, fun c hc => ?_, fun a ha => by cases ha⟩
    · rw [hclean] at hf
      cases hf
    · cases he
      exact hplace now hclock
    · rw [hw'.log] at hc
      cases hc
  change wp _ _ _ (placeBet params >>= _) _ _ _ _
  rw [wp_bind, placeBet, wp_bind, wp_check]
  refine ⟨fun p hp => ?_, fun e he => ?_⟩
  swap
  · apply hrefuse rfl hw
    intro now _
    rw [Player.place, he]
    rfl
  refine wp_idempotent _ _ (hw.wp_findReplay rfl rfl hfault ?_ ?_ ?_)
  · intro s₁ w₁ htx hclean hw₁ hb
    refine hw₁.wp_transaction htx hclean (fun start s₂ w₂ hrun hw₂ => ?_) ?_
    · apply AtRest.wp_placementTransaction hb hw₂ hrun
      · exact fun s' w' hf hw' => ⟨hw', fun w'' hw'' =>
          ⟨fun _ => hfault _ w'' hf hw'', fun he => by cases he⟩⟩
      · intro e s' w' hclean' hw' hne hbet
        refine ⟨hw', fun w'' hw'' => ⟨fun _ => ?_, fun he => absurd he hne⟩⟩
        exact hrefuse hclean' hw'' fun now hclock => (place_new hp hb now).trans (hbet now hclock)
      · intro result b row s' w' hnew hrun' hw'
        refine ⟨placed p b row, hrun', hw', fun w'' hw'' => ⟨fun hf => ?_, fun e he => (by cases he),
          fun c' hc' => ?_, fun a _ h => by cases h⟩⟩
        · exact (Bool.false_ne_true (hrun'.clean.symm.trans hf)).elim
        · rcases List.mem_cons.mp hc' with rfl | hc'
          · refine ⟨rfl, fun m hm => hm, fun b' hb' => ?_⟩
            obtain rfl : b' = b := by simpa [placed, post] using hb'
            exact hnew
          · rw [hw''.log] at hc'
            cases hc'
    · exact fun s' w' _ hf hw' => ⟨fun _ => hfault s' w' hf hw', fun he => by cases he⟩
  · intro b s' w' hclean hw' hb hm
    apply hrefuse hclean hw'
    intro now _
    rw [place_found hp hb, hm]
    rfl
  · intro b s' w' hclean hw' hb hm
    refine ⟨fun hf => (Bool.false_ne_true (hclean.symm.trans hf)).elim, fun e he => (by cases he),
      fun c hc => ?_, fun a ha _ => ?_⟩
    · rw [hw'.log] at hc
      cases hc
    · cases ha
      refine ⟨_, rfl, fun now => ?_⟩
      rw [place_found hp hb, hm]
      rfl

def Res.reply : Res → Option Reply
  | .bet result => some result.reply
  | _ => none

def outcome (r : Except Err Res) : Except Err (Option Reply) := r.map Res.reply

section Serves

variable {σ : State sql} {q : Proc sql} {r : Except Err Res}

theorem placement_of_serves (h : Serves body Db.Mentions d (Call.placeBet params) σ)
    (hq : σ.procs 0 = some q) (hr : q.prog.Ends r) (hown : own 0 σ.world.log = σ.world.log) :
    σ.world.db = replay d σ.world.log ∧ ((∃ e, r = .error e) → σ.world.log = []) ∧
      ((∃ a, r = .ok a) → σ.world.log = [] ∨ ∃ c, σ.world.log = [c] ∧ Meets (fun _ => True) c d ∧
        ∃ p b t, c.writes = placed p b t ∧ r = .ok (.bet (placedResult b params.dto.roundId
          (PointsLedgerService.toResult t false)))) := by
  have hinv : Invariant (protocol d fun _ => True)
      (fun i _ r s w => Done d i s w (.placeBet params) r) σ :=
    Serves.invariant (P := protocol d fun _ => True) h (fun _ hx => .inl hx) fun w hw hlog =>
      verified d (fun _ => True) 0 (.placeBet params) w trivial hw (by rw [hlog]; rfl)
  have hspec := hinv.ok.chronicle
  obtain ⟨w₀, hrely, hdone⟩ := hinv.outcome hq hr
  have hown₀ : own 0 w₀.log = σ.world.log := hrely.own.symm.trans hown
  refine ⟨hinv.ok.db_eq, ?_, ?_⟩
  · rintro ⟨e, rfl⟩
    exact hown₀.symm.trans hdone.own_of_error
  · rintro ⟨a, rfl⟩
    cases hdone with
    | placed hlog _ hw =>
      rw [hown₀] at hlog
      rw [hlog] at hspec
      exact .inr ⟨_, hlog, hspec.1, _, _, _, hw, rfl⟩
    | betReplayed hlog => exact .inl (hown₀.symm.trans hlog)

theorem place_turn {pl pl' : Player} {rounds : List GameRound} {now : ℕ} {reply : Reply}
    (h : pl.place rounds now params = .ok (reply, pl')) :
    pl.turn rounds now params = (.ok reply, pl') := by
  rw [Player.turn, h]

theorem refused_turn {pl : Player} {rounds : List GameRound} {now : ℕ} {e : Err}
    (h : pl.place rounds now params = .error e) : pl.turn rounds now params = (.error e, pl) := by
  rw [Player.turn, h]

structure Turn (d : Db) (params : PlaceBetParams) (r : Except Err Res) (s : Local sql) (d' : Db) :
    Prop where
  accounts : DistinctAccounts d'
  others : ∀ u, u ≠ params.userId → playerOf d' u = playerOf d u
  fault : s.faulted = true → r = .error .fault ∧ playerOf d' params.userId = playerOf d params.userId
  turn : s.faulted = false → ∀ now, Clocked now s → ∀ x,
    x = (playerOf d params.userId).turn d.rounds now params →
      outcome r = x.1.map some ∧ playerOf d' params.userId = x.2

theorem turn_of_serves (h : Serves body Db.Mentions d (Call.placeBet params) σ)
    (hd : DistinctAccounts d) (hq : σ.procs 0 = some q) (hr : q.prog.Ends r) :
    Turn d params r q.loc σ.world.db := by
  obtain ⟨hanswers, hown⟩ :=
    h.outcome (X := Answers d params) (fun w hw => AtRest.wp_placeBet hw) hq hr
  obtain ⟨hdb, hfailed, hok⟩ := placement_of_serves h hq hr hown
  have hsame (hlog : σ.world.log = []) : σ.world.db = d := by rw [hdb, hlog]; rfl
  cases r with
  | error e =>
    have hd' := hsame (hfailed ⟨e, rfl⟩)
    refine ⟨hd' ▸ hd, fun u _ => by rw [hd'], fun hf => ⟨hanswers.fault hf, by rw [hd']⟩, ?_⟩
    rintro hclean now hclock x rfl
    rw [refused_turn (hanswers.refusal e rfl hclean now hclock), hd']
    exact ⟨rfl, rfl⟩
  | ok a =>
    have hnofault (hf : q.loc.faulted = true) : False := by cases hanswers.fault hf
    rcases hok ⟨a, rfl⟩ with hlog | ⟨c, hlog, hmeets, p, b, t, hw, hres⟩
    · have hd' := hsame hlog
      refine ⟨hd' ▸ hd, fun u _ => by rw [hd'], fun hf => (hnofault hf).elim, ?_⟩
      rintro - now - x rfl
      obtain ⟨result, rfl, hplace⟩ := hanswers.replay a rfl hlog
      rw [place_turn (hplace now), hd']
      exact ⟨rfl, rfl⟩
    · obtain ⟨hcall, htrace, hnew⟩ := hanswers.commits c (hlog ▸ List.mem_singleton_self c)
      obtain ⟨p', b', t', hw', hp⟩ : ∃ p b t, c.writes = placed p b t ∧
          Places params p b t c.start c.trace d := by
        have hm := hmeets.2
        rw [hcall] at hm
        exact hm
      have hsame' := hw.symm.trans hw'
      simp only [placed, post, List.cons.injEq, Write.insertBet.injEq,
        Write.insertTransaction.injEq] at hsame'
      obtain ⟨rfl, -, rfl, -⟩ := hsame'
      have hd' : σ.world.db = applyAll (S := sql) (placed p' b t) d := by
        rw [hdb, hlog, ← hw']
        rfl
      have hnew : ¬ d.Mentions b.id := hnew b (by rw [hw]; exact List.mem_cons_self)
      have hgrows : Grows d σ.world.db := hd' ▸ (protocol d fun _ => True).le_applyAll _ d
      refine ⟨hgrows.distinctAccounts hd, fun u hu => hd' ▸ playerOf_other hd hp hu,
        fun hf => (hnofault hf).elim, ?_⟩
      rintro - now hclock x rfl
      obtain ⟨m, hm, hchecked⟩ := hp.checked
      obtain rfl : c.start = now := hchecked.now.symm.trans (hclock m (htrace hm) hchecked.tag)
      rw [place_turn (hp.place (Db.undebited_of_mentions hnew)), hd']
      cases hres
      exact ⟨rfl, rfl⟩

end Serves

end JitoGame
