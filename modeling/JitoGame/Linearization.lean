import JitoGame.Isolation
import JitoGame.Transactions.Later

namespace JitoGame

open Transactions BetsService

/-! A request that is served among others. -/

inductive Stop (params : PlaceBetParams) (p : Placement) (n : ℕ) (s : Local sql) (w : World sql) :
    Err → Prop
  | fault (hf : s.faulted = true) : Stop params p n s w .fault
  | unparsed (h : Uuid.parse params.dto.roundId = none) : Stop params p n s w .databaseError
  | refused {m m' : Mark sql} {e : Err} (hm : m ∈ s.trace) (hm' : m' ∈ s.trace) (hn : n ≤ m.index)
      (hne : e ≠ .uniqueViolation)
      (hbet : (playerOf m.db params.userId).bet m.db.rounds m'.now params p = .error e) :
      Stop params p n s w e
  | keyTaken (h : (w.db.betOf params.userId p.idempotencyKey).isSome = true) :
      Stop params p n s w .uniqueViolation
  | debitTaken {betId : Uuid} (hid : betId ∈ s.minted)
      (h : (w.db.transactionOf (ledgerIdempotencyKey betId)).isSome = true) :
      Stop params p n s w .uniqueViolation

variable {base : Db} {spec : Commit sql → Db → Prop} {i : ℕ} {c : Call} {s : Local sql} {w : World sql}
variable {E : Err → Local sql → World sql → Prop} {start n : ℕ} {params : PlaceBetParams} {p : Placement}

theorem Stop.more {w' : World sql} {s' : Local sql} {e : Err} (h : Stop params p n s w e)
    (htrace : s.trace ⊆ s'.trace) (hminted : s.minted ⊆ s'.minted)
    (hfault : e = .fault → s.faulted = true → s'.faulted = true)
    (hle : Grows w.db w'.db) : Stop params p n s' w' e := by
  cases h with
  | fault hf => exact .fault (hfault rfl hf)
  | unparsed h => exact .unparsed h
  | refused hm hm' hn hne hbet => exact .refused (htrace hm) (htrace hm') hn hne hbet
  | keyTaken h =>
    obtain ⟨b, hb⟩ := Option.isSome_iff_exists.mp h
    exact .keyTaken (Option.isSome_iff_exists.mpr ⟨b, hle.betOf hb⟩)
  | debitTaken hid h =>
    obtain ⟨t, ht⟩ := Option.isSome_iff_exists.mp h
    exact .debitTaken (hminted hid) (Option.isSome_iff_exists.mpr ⟨t, hle.transactionOf ht⟩)

theorem Stop.mono {k : ℕ} {e : Err} (h : Stop params p n s w e) (hk : k ≤ n) :
    Stop params p k s w e := by
  cases h with
  | fault hf => exact .fault hf
  | unparsed h => exact .unparsed h
  | refused hm hm' hn hne hbet => exact .refused hm hm' (hk.trans hn) hne hbet
  | keyTaken h => exact .keyTaken h
  | debitTaken hid h => exact .debitTaken hid h

namespace PointsLedgerService

variable {ws : List Write} {held : List (Resource sql)}

theorem wp_commitMutation_stops {locked : LockedAccountMutation} {ref : LedgerReference}
    {Q : LedgerMutationResult → Local sql → World sql → Prop} (h : s.In start ws held)
    (hacc : .row (.account locked.accountId) ∈ held)
    (hws : ∀ d, (applyAll (S := sql) ws d).transactionOf ref.idempotencyKey =
      d.transactionOf ref.idempotencyKey)
    (hfault : ∀ s' w', Along (discipline base spec) i s w s' w' → s'.faulted = true → E .fault s' w')
    (hunfit : ∀ id createdAt s' w', Along (discipline base spec) i s w s' w' →
      (transactionRow locked ref id createdAt).fits = false → E .databaseError s' w')
    (htaken : ∀ s' w', Along (discipline base spec) i s w s' w' →
      (w'.db.transactionOf ref.idempotencyKey).isSome = true → E .uniqueViolation s' w')
    (hQ : ∀ result s' w' ws' held', s'.In start ws' held' →
      Along (discipline base spec) i s w s' w' → Q result s' w') :
    wp (discipline base spec) i c (commitMutation locked ref) Q E s w := by
  rw [commitMutation, wp_bind]
  apply wp_fresh_known
  intro id w₁ _ hal₁
  have hin₁ := h.mint id
  rw [wp_bind]
  apply wp_outside_along
  intro n w₂ hal₂
  have hal := hal₁.trans hal₂
  rw [wp_bind, wp_require]
  refine ⟨fun _ => ?_, fun hfits => hunfit id n _ w₂ hal (by simpa using hfits)⟩
  rw [wp_bind]
  refine wp_insert hin₁ (fun w' hal' => hfault _ w' (hal.trans hal') rfl) ?_ ?_ ?_
  · intro x hx r hr
    obtain rfl : x = .insertTransaction (transactionRow locked ref id n) := by simpa using hx
    have hr' : r = .row (.ledgerKey ref.idempotencyKey) ∨ r = .row (.account locked.accountId) ∨
        r = .id id := by simpa [discipline, footprint, transactionRow] using hr
    rcases hr' with rfl | rfl | rfl
    · simp [transactionRow]
    · simp [hacc]
    · simp
  · intro s' w' _ hal' hkey
    rw [transactionRow, hws] at hkey
    exact htaken s' w' (hal.trans hal') hkey
  · intro s₃ w₃ hin₃ hal₃ _
    have hal₃' := hal.trans hal₃
    rw [wp_bind]
    refine hin₃.wp_exec (fun w' hal' => hfault _ w' (hal₃'.trans hal') rfl) ?_ ?_
    · intro w' _ x hx r hr
      obtain rfl : x = .updateAccount locked.accountId locked.balanceAfterMinor := by simpa using hx
      have hr' : r = .row (.account locked.accountId) := by simpa [discipline, footprint] using hr
      simp [hr']
    · exact fun s₄ w₄ v _ hin₄ hal₄ _ => hQ _ s₄ w₄ _ _ hin₄ (hal₃'.trans hal₄)

end PointsLedgerService

namespace BetsService

theorem lockRow_congr {d d' : Db} {roundId : Uuid} (h : d'.roundOf roundId = d.roundOf roundId) (now : ℕ) :
    lockRow d' roundId now = lockRow d roundId now := by
  rw [lockRow, lockRow, h]

theorem wp_placementTransaction_stops {Q : PlaceBetResult → Local sql → World sql → Prop}
    (hw : w.Ok (discipline base spec)) (h : s.In start [] [])
    (hE : ∀ e s' w', Along (discipline base spec) i s w s' w' → Stop params p w.log.length s' w' e →
      E e s' w')
    (hQ : ∀ result s' w' ws held, s'.In start ws held → Along (discipline base spec) i s w s' w' →
      Q result s' w') :
    wp (discipline base spec) i c (placementTransaction params.userId params.dto p) Q E s w := by
  have hfault (s' : Local sql) (w' : World sql) (hal : Along (discipline base spec) i s w s' w')
      (hf : s'.faulted = true) : E .fault s' w' := hE _ s' w' hal (.fault hf)
  rw [placementTransaction, wp_bind, lockRound]
  cases hid : Uuid.parse params.dto.roundId with
  | none => exact hE _ s w (.refl hw) (.unparsed hid)
  | some roundId =>
  change wp _ _ _ (Prog.exec _ _ _ >>= _) _ _ _ _
  rw [wp_bind]
  refine h.wp_exec (fun w' hal => hfault _ w' hal rfl) (fun _ _ _ hx => by cases hx) ?_
  intro s₁ w₁ v hv hin₁ hal₁ htr₁
  subst hv
  -- the mark of the check of the round
  obtain ⟨m₁, hm₁, hnow₁, hidx₁, hdb₁⟩ : ∃ m ∈ s₁.trace, m.now = start ∧
      w.log.length ≤ m.index ∧ m.db = w₁.db :=
    ⟨_, htr₁ ▸ List.mem_cons_self, rfl, hal₁.rely.log.length_le, rfl⟩
  clear htr₁
  change wp _ _ _ (check (validateRound params.dto.gameId (lockRow w₁.db roundId start)) >>= _) _ _ _ _
  rw [wp_bind, wp_check]
  constructor
  swap
  · intro e he
    refine hE e s₁ w₁ hal₁ (.refused hm₁ hm₁ hidx₁ (fun hne => validateRound_ne (hne ▸ he)) ?_)
    rw [hdb₁, hnow₁]
    exact Player.bet_round hid he
  intro round hround
  obtain ⟨r, hr, hrid, -⟩ := validateRound_ok hround
  have hheld₁ : s₁.Holds (.row (.round roundId)) := by
    have hrid' : r.id = roundId := by simpa using List.find?_some hr
    have hr' : (applyAll (S := sql) [] w₁.db).roundOf roundId = some r := hr
    exact hin₁.held _ (by simp [hr', hrid'])
  rw [wp_bind, PointsLedgerService.lockAndValidateAccount, wp_bind, wp_check,
    PointsLedgerService.assertPositiveAmount]
  by_cases hle : p.totalAmountMinor ≤ 0
  · rw [if_pos hle]
    refine ⟨fun _ ha => (by cases ha), fun e he => ?_⟩
    cases he
    refine hE _ s₁ w₁ hal₁ (.refused hm₁ hm₁ hidx₁ (fun hne => by cases hne) ?_)
    rw [hdb₁, hnow₁]
    exact Player.bet_amount hid hround hle
  rw [if_neg hle]
  refine ⟨fun _ _ => ?_, fun _ he => by cases he⟩
  have hpos := Int.not_le.mp hle
  rw [wp_bind]
  refine hin₁.wp_exec (fun w' hal => hfault _ w' (hal₁.trans hal) rfl) (fun _ _ _ hx => by cases hx) ?_
  intro s₂ w₂ v hv hin₂ hal₂ htr₂
  subst hv
  have hal₂' := hal₁.trans hal₂
  obtain ⟨m₂, hm₂, hidx₂, hdb₂⟩ : ∃ m ∈ s₂.trace, w.log.length ≤ m.index ∧ m.db = w₂.db :=
    ⟨_, htr₂ ▸ List.mem_cons_self, hal₂'.rely.log.length_le, rfl⟩
  have hm₁₂ : m₁ ∈ s₂.trace := hal₂.trace.subset hm₁
  clear htr₂
  -- the round is locked, so the check holds at the second mark too
  have hround₂ : validateRound params.dto.gameId (lockRow w₂.db roundId start) = .ok round := by
    have hsame := (hal₂.rely.agree (.row (.round roundId)) hheld₁).1 r hr
    rw [lockRow_congr (hsame.trans hr.symm)]
    exact hround
  have hrefuse {e : Err} {s' : Local sql} {w' : World sql}
      (hal : Along (discipline base spec) i s₂ w₂ s' w') (hne : e ≠ .uniqueViolation)
      (hbet : (playerOf w₂.db params.userId).bet w₂.db.rounds start params p = .error e) : E e s' w' := by
    refine hE e s' w' (hal₂'.trans hal)
      (.refused (hal.trace.subset hm₂) (hal.trace.subset hm₁₂) hidx₂ hne ?_)
    rw [hdb₂, hnow₁]
    exact hbet
  rw [wp_check]
  refine ⟨fun locked hval => ?_, fun e he => ?_⟩
  swap
  · exact hrefuse (.refl hal₂.rely.ok) (fun hne => validateAccount_ne (hne ▸ he))
      (Player.bet_account hid hround₂ hpos he)
  have hunfit := Player.bet_locked (p := p) hid hround₂ hpos hval
  have hacc : ∃ a, w₂.db.accountOf params.userId = some a ∧ locked.accountId = a.id := by
    have hval' : PointsLedgerService.validateAccount params.userId .debit p.totalAmountMinor false
      (w₂.db.accountOf params.userId) = .ok locked := hval
    cases ha : w₂.db.accountOf params.userId with
    | none => rw [ha] at hval'; cases hval'
    | some a => rw [ha] at hval'; exact ⟨a, rfl, PointsLedgerService.validateAccount_id hval'⟩
  obtain ⟨a, ha, hlid⟩ := hacc
  have ha' : (applyAll (S := sql) [] w₂.db).accountOf params.userId = some a := ha
  rw [wp_bind]
  apply wp_fresh_known
  intro betId w₃ _ hal₃
  have hin₃ := hin₂.mint betId
  rw [wp_bind]
  apply wp_outside_along
  intro acceptedAt w₄ hal₄
  have hal₄' := hal₃.trans hal₄
  rw [wp_bind, wp_require]
  refine ⟨fun hbet => ?_, fun hbet => ?_⟩
  swap
  · exact hrefuse hal₄' (fun he => by cases he)
      (hunfit betId params.userId round.id betId acceptedAt 0 fun hfit => hbet hfit.1)
  rw [wp_bind]
  refine wp_insert hin₃ (fun w' hal => hfault _ w' (hal₂'.trans (hal₄'.trans hal)) rfl) ?_ ?_ ?_
  · intro x hx r' hr'
    obtain rfl : x = .insertBet (betRow betId params.userId round.id p acceptedAt) := by simpa using hx
    have hf : r' = .row (.betKey params.userId p.idempotencyKey) ∨ r' = .row (.round round.id) ∨
        r' = .id betId := by simpa [discipline, footprint, betRow] using hr'
    have hr₁ : (applyAll (S := sql) [] w₁.db).roundOf roundId = some r := hr
    have hrid' : r.id = roundId := by simpa using List.find?_some hr
    rcases hf with rfl | rfl | rfl <;> simp [hrid, hr₁, hrid']
  · exact fun s' w' _ hal hkey => hE _ s' w' (hal₂'.trans (hal₄'.trans hal)) (.keyTaken hkey)
  intro s₅ w₅ hin₅ hal₅ _
  have hal₅' := hal₄'.trans hal₅
  rw [wp_bind, wp_require]
  refine ⟨fun hitems => ?_, fun hitems => ?_⟩
  swap
  · exact hrefuse hal₅' (fun he => by cases he)
      (hunfit betId params.userId round.id betId acceptedAt 0 fun hfit => hitems hfit.2.1)
  rw [wp_bind]
  refine hin₅.wp_exec (fun w' hal => hfault _ w' (hal₂'.trans (hal₅'.trans hal)) rfl) ?_ ?_
  · intro w' _ x hx r' hr'
    obtain rfl : x = .insertBetItems (itemRows betId p) := by simpa using hx
    obtain ⟨item, hitem, rfl⟩ := List.mem_map.mp hr'
    obtain ⟨m, -, rfl⟩ := List.mem_map.mp hitem
    simp
  intro s₆ w₆ v hv hin₆ hal₆ _
  have hal₆' := hal₅'.trans hal₆
  rw [wp_bind]
  refine PointsLedgerService.wp_commitMutation_stops hin₆ (by simp [ha', hlid]) (fun _ => rfl) ?_ ?_ ?_ ?_
  · exact fun s' w' hal hf => hfault s' w' (hal₂'.trans (hal₆'.trans hal)) hf
  · intro id n s' w' hal hrow
    refine hrefuse (hal₆'.trans hal) (fun he => by cases he)
      (hunfit betId params.userId round.id id acceptedAt n fun hfit => ?_)
    rw [hfit.2.2] at hrow
    cases hrow
  · intro s' w' hal hkey
    have hminted : betId ∈ s'.minted := (hal₄.trans (hal₅.trans (hal₆.trans hal))).holds (.id betId)
      (List.mem_cons_self)
    exact hE _ s' w' (hal₂'.trans (hal₆'.trans hal)) (.debitTaken hminted hkey)
  · exact fun result s' w' ws held hin hal => hQ _ s' w' ws held hin (hal₂'.trans (hal₆'.trans hal))

inductive Reason (params : PlaceBetParams) (i : ℕ) (s : Local sql) (w : World sql) :
    Except Err PlaceBetResult → Prop
  | placed {result : PlaceBetResult} (h : own i w.log ≠ []) : Reason params i s w (.ok result)
  | replayed {p : Placement} {b : Bet} {m m' : Mark sql} (hp : validate params = .ok p)
      (hm : m ∈ s.trace) (hm' : m' ∈ s.trace) (hle : m.index ≤ m'.index)
      (hb : m.db.betOf params.userId p.idempotencyKey = some b)
      (hr : matchesReplay b (m.db.itemsOf b.id) params.dto.roundId p = true) :
      Reason params i s w (.ok (replayResult b (m'.db.debitOf b.id)))
  | reused {p : Placement} {b : Bet} {m : Mark sql} (hp : validate params = .ok p) (hm : m ∈ s.trace)
      (hb : m.db.betOf params.userId p.idempotencyKey = some b)
      (hr : matchesReplay b (m.db.itemsOf b.id) params.dto.roundId p = false) :
      Reason params i s w (.error .betIdempotencyKeyReused)
  | invalid {e : Err} (he : validate params = .error e) : Reason params i s w (.error e)
  | faulted (hf : s.faulted = true) : Reason params i s w (.error .fault)
  | stopped {p : Placement} {m : Mark sql} {e : Err} (hp : validate params = .ok p) (hm : m ∈ s.trace)
      (hb : m.db.betOf params.userId p.idempotencyKey = none) (h : Stop params p m.index s w e)
      (hnew : e = .uniqueViolation → w.db.betOf params.userId p.idempotencyKey = none) :
      Reason params i s w (.error e)

theorem wp_placeBet_reason (hown : own i w.log = []) :
    wp (discipline base fun _ _ => True) i c (placeBet params)
      (fun a s' w' => Reason params i s' w' (.ok a)) (fun e s' w' => Reason params i s' w' (.error e))
      .idle w := by
  rw [placeBet, wp_bind, wp_check]
  refine ⟨fun p hp => ?_, fun e he => .invalid he⟩
  have hfound {b : Bet} {w₁ : World sql} {s' : Local sql} {w' : World sql} {trace : List (Mark sql)}
      (htr : s'.trace = w'.read .findBetDebit :: w₁.read .findBet :: trace) (hl : w₁.log <:+ w'.log)
      (hb : w₁.db.betOf params.userId p.idempotencyKey = some b)
      (hm : matchesReplay b (w₁.db.itemsOf b.id) params.dto.roundId p = true) :
      Reason params i s' w' (.ok (replayResult b (w'.db.debitOf b.id))) := by
    have hmem : w₁.read .findBet ∈ s'.trace := htr ▸ List.mem_cons_of_mem _ List.mem_cons_self
    have hmem' : w'.read .findBetDebit ∈ s'.trace := htr ▸ List.mem_cons_self
    change Reason params i s' w' (.ok (replayResult b ((w'.read .findBetDebit).db.debitOf b.id)))
    exact .replayed hp hmem hmem' hl.length_le hb hm
  have hreused {b : Bet} {s' : Local sql} {w' : World sql} {trace : List (Mark sql)}
      (htr : s'.trace = w'.read .findBet :: trace)
      (hb : w'.db.betOf params.userId p.idempotencyKey = some b)
      (hm : matchesReplay b (w'.db.itemsOf b.id) params.dto.roundId p = false) :
      Reason params i s' w' (.error .betIdempotencyKeyReused) := by
    have hmem : w'.read .findBet ∈ s'.trace := htr ▸ List.mem_cons_self
    exact .reused hp hmem hb hm
  refine wp_idempotent _ _ (wp_findReplay rfl (fun s₁ w₁ _ _ hf => .faulted hf) ?_
    (fun b s' w' _ _ htr hb hm => hreused htr hb hm)
    fun b w₁ s' w' _ _ _ hl _ htr hb hm => hfound htr hl hb hm)
  intro s₁ w₁ htx hal₁ htr₁ hb₁
  have hmark : w₁.read .findBet ∈ s₁.trace := htr₁ ▸ List.mem_cons_self
  refine wp_transaction_out htx (fun s₂ w₂ hin hal₂ => ?_) fun s' w' _ hf _ => ?_
  swap
  · exact ⟨fun _ => .faulted hf, fun he => by cases he⟩
  apply wp_placementTransaction_stops hal₂.rely.ok hin
  · intro e s' w' hal hstop w'' hr
    have hmark' : w₁.read .findBet ∈ s'.trace := (hal₂.trans hal).trace.subset hmark
    have hstop' : Stop params p w₁.log.length s'.ended w'' e :=
      (hstop.mono hal₂.rely.log.length_le).more (fun _ hm => hm) (fun _ hx => hx) (fun _ hf => hf) hr.le
    refine ⟨fun hne => .stopped hp hmark' hb₁ hstop' fun he => absurd he hne, ?_⟩
    rintro rfl
    apply wp_findReplay rfl
    · exact fun s₃ w₃ _ _ hf => .faulted hf
    · intro s₃ w₃ htx₃ hal₃ htr₃ hb₃
      have hmark₃ : w₁.read .findBet ∈ s₃.trace := hal₃.trace.subset hmark'
      have hminted : s'.ended.minted ⊆ s₃.minted := fun x hx => hal₃.holds (.id x) hx
      have hstop₃ := hstop'.more hal₃.trace.subset hminted (fun he => by cases he) hal₃.rely.le
      exact .stopped hp hmark₃ hb₁ hstop₃ fun _ => hb₃
    · exact fun b s₃ w₃ _ _ htr hb hm => hreused htr hb hm
    · exact fun b w₃ s₃ w₄ _ _ _ hl _ htr hb hm => hfound htr hl hb hm
  · intro result s' w' ws held hin' hal
    refine ⟨ws, held, hin', hal₂.trans hal, fun w'' _ => ⟨trivial, fun hown' => .placed ?_⟩⟩
    have hown₁ : own i w''.log = [] := hown'.trans (hal₁.own.trans hown)
    have hone : own i (w''.push ⟨i, c, w₂.clock, w''.clock, ws, s'.trace⟩).log = [_] := own_push rfl hown₁
    exact hone ▸ List.cons_ne_nil _ _

end BetsService

def reasons (base : Db) : Outcome sql := fun i call r s w => Done base i s w call r ∧
  ∀ params, call = .placeBet params → ∃ r', r = r'.map .bet ∧ BetsService.Reason params i s w r'

theorem reasons_verified (base : Db) (allowed : Call → Prop) :
    Verified (protocol base allowed) body allowed (reasons base) := by
  intro i call w hall hw hown
  have hdone := verified base allowed i call w hall hw hown
  cases call with
  | placeBet params =>
    have hreason : wp (discipline base fun _ _ => True) i (Call.placeBet params)
        (body (.placeBet params)) (fun a s' w' => ∃ r', .ok a = r'.map Res.bet ∧ Reason params i s' w' r')
        (fun e s' w' => ∃ r', .error e = r'.map Res.bet ∧ Reason params i s' w' r') .idle w := by
      change wp _ _ _ (placeBet params >>= _) _ _ _ _
      rw [wp_bind]
      exact wp_mono _ (wp_placeBet_reason hown) (fun a _ _ ha => ⟨.ok a, rfl, ha⟩)
        fun e _ _ he => ⟨.error e, rfl, he⟩
    refine wp_mono _ (wp_and (fun _ _ _ => trivial) _ hdone hreason) (fun a s' w' h => ⟨h.1, ?_⟩)
      fun e s' w' h => ⟨h.1, ?_⟩
    · rintro params' heq
      cases heq
      exact h.2
    · rintro params' heq
      cases heq
      exact h.2
  | _ => exact wp_mono _ hdone (fun _ _ _ h => ⟨h, nofun⟩) fun _ _ _ h => ⟨h, nofun⟩

theorem Run.reasons {K : Policy sql} {s : State sql} (h : Run K base s) {p : Proc sql}
    (hp : s.procs i = some p) {r : Except Err Res} (hr : p.prog.Ends r) :
    ∃ w, Rely (protocol base K.spawn) i p.loc w s.world ∧ JitoGame.reasons base i p.call r p.loc w :=
  (Transactions.Run.invariant (reasons_verified base K.spawn) h).outcome hp hr

/-! The one moment at which a request is served. -/

theorem Effect.itemsOf_old {c : Commit sql} {d : Db} (h : Effect c d)
    (href : ∀ params, c.call = .applyMutation params → params.referenceType ≠ .betPlaced) {b : Bet}
    (hb : b ∈ d.bets) : Db.itemsOf (applyAll c.writes d) b.id = d.itemsOf b.id := by
  rcases h.bets href with ⟨params, p, b', t, -, hw, hp⟩ | ⟨-, hitems, -⟩
  · rw [hw]
    exact BetsLinked.itemsOf_placed hp b hb
  · rw [Db.itemsOf, Db.itemsOf, hitems]

theorem itemsOf_replay {base : Db} {older newer : List (Commit sql)}
    (h : Chronicle (Meets noBetReference) base newer) (hs : older <:+ newer) {b : Bet}
    (hb : b ∈ Db.bets (replay base older)) :
    Db.itemsOf (replay base newer) b.id = Db.itemsOf (replay base older) b.id := by
  obtain ⟨front, rfl⟩ := hs
  induction front with
  | nil => rfl
  | cons c front ih =>
    have hmem : b ∈ Db.bets (replay base (front ++ older)) :=
      (grows_replay (List.suffix_append front older)).bets.subset hb
    refine (h.1.effect.itemsOf_old (fun params hcall => ?_) hmem).trans (ih h.2)
    have hspawn := h.1.1
    rw [hcall] at hspawn
    exact hspawn

structure ServedAt (base : Db) (params : PlaceBetParams) (i : ℕ) (s₀ s : State sql)
    (r : Except Err Res) (older : List (Commit sql)) (now : ℕ) : Prop where
  after : s₀.world.log <:+ older
  before : older <:+ s.world.log
  time : s₀.world.clock ≤ now ∧ now ≤ s.world.clock
  answer : ∀ x, x = (playerOf (replay base older) params.userId).turn
      (replay (S := sql) base older).rounds now params → outcome r = x.1.map some ∧
    (own i s.world.log = [] ∧ x.2 = playerOf (replay base older) params.userId ∨
      ∃ c, own i s.world.log = [c] ∧ (c :: older) <:+ s.world.log ∧
        x.2 = playerOf (replay base (c :: older)) params.userId)

/-- The request has found its key free, another call has then committed a bet under the key, and the
request is refused as if there were none. -/
structure Overtaken (base : Db) (params : PlaceBetParams) (i : ℕ) (s₀ s : State sql) (e : Err)
    (p : Placement) (older latest : List (Commit sql)) (now : ℕ) : Prop where
  after : s₀.world.log <:+ older
  order : older <:+ latest
  before : latest <:+ s.world.log
  time : s₀.world.clock ≤ now ∧ now ≤ s.world.clock
  valid : validate params = .ok p
  free : Db.betOf (replay base older) params.userId p.idempotencyKey = none
  twin : ∃ c newer params' p', (c :: newer) <:+ latest ∧ older <:+ newer ∧ c.proc ≠ i ∧
    c.call = .placeBet params' ∧ params'.userId = params.userId ∧ validate params' = .ok p' ∧
    p'.idempotencyKey = p.idempotencyKey
  refused : (playerOf (replay base latest) params.userId).bet (replay (S := sql) base latest).rounds now
    params p = .error e

inductive Linearized (base : Db) (params : PlaceBetParams) (i : ℕ) (s₀ s : State sql) (loc : Local sql) :
    Except Err Res → Prop
  | served {r : Except Err Res} {older : List (Commit sql)} {now : ℕ}
      (h : ServedAt base params i s₀ s r older now) : Linearized base params i s₀ s loc r
  | fault (hf : loc.faulted = true) (hown : own i s.world.log = []) :
      Linearized base params i s₀ s loc (.error .fault)
  | overtaken {e : Err} {p : Placement} {older latest : List (Commit sql)} {now : ℕ}
      (hown : own i s.world.log = []) (h : Overtaken base params i s₀ s e p older latest now) :
      Linearized base params i s₀ s loc (.error e)
  -- an administrator has used the key of the debit, before the id of the bet was drawn
  | debitTaken {betId : Uuid} (hown : own i s.world.log = []) (hid : betId ∈ loc.minted)
      (h : (s.world.db.transactionOf (ledgerIdempotencyKey betId)).isSome = true) :
      Linearized base params i s₀ s loc (.error .uniqueViolation)

theorem Meets.bet_new {c : Commit sql} {d : Db} (h : Meets noBetReference c d) {userId : Uuid}
    {key : String} {b : Bet} (hfree : d.betOf userId key = none)
    (hb : Db.betOf (applyAll c.writes d) userId key = some b) : ∃ params p, c.call = .placeBet params ∧
      params.userId = userId ∧ validate params = .ok p ∧ p.idempotencyKey = key := by
  have href (params : ApplyLedgerMutationParams) (hcall : c.call = .applyMutation params) :
      params.referenceType ≠ .betPlaced := by
    have hspawn := h.1
    rw [hcall] at hspawn
    exact hspawn
  rw [Db.betOf] at hfree hb
  rcases h.effect.bets href with ⟨params, p, b', t, hcall, hw, hp⟩ | ⟨hbets, -⟩
  · have hbets : Db.bets (applyAll c.writes d) = d.bets ++ [b'] := by rw [hw]; rfl
    rw [hbets, List.find?_append, hfree, Option.none_or] at hb
    have hbb : b = b' := List.mem_singleton.mp (List.mem_of_find?_eq_some hb)
    have hmatch : b'.userId = userId ∧ b'.idempotencyKey = key := by
      simpa [hbb] using List.find?_some hb
    have hrow := hp.bet
    refine ⟨params, p, hcall, ?_, hp.valid, ?_⟩
    · rw [← hmatch.1, hrow]
      rfl
    · rw [← hmatch.2, hrow]
      rfl
  · rw [hbets, hfree] at hb
    cases hb

theorem bet_appears {base : Db} {older latest : List (Commit sql)} {userId : Uuid} {key : String} {b : Bet}
    (h : Chronicle (Meets noBetReference) base latest) (hs : older <:+ latest)
    (hfree : Db.betOf (replay base older) userId key = none)
    (hb : Db.betOf (replay base latest) userId key = some b) :
    ∃ c newer params p, (c :: newer) <:+ latest ∧ older <:+ newer ∧ c.call = .placeBet params ∧
      params.userId = userId ∧ validate params = .ok p ∧ p.idempotencyKey = key := by
  obtain ⟨front, rfl⟩ := hs
  induction front with
  | nil => cases hfree.symm.trans hb
  | cons c front ih =>
    cases hold : Db.betOf (replay base (front ++ older)) userId key with
    | some b' =>
      have hkeep := (grows_commit c (replay base (front ++ older))).betOf hold
      obtain ⟨c', newer, params, p, hs, hrest⟩ := ih h.2 (hold.trans (hkeep.symm.trans hb))
      exact ⟨c', newer, params, p, hs.trans (List.suffix_cons _ _), hrest⟩
    | none =>
      obtain ⟨params, p, hplaces⟩ := h.1.bet_new hold hb
      exact ⟨c, front ++ older, params, p, List.suffix_refl _, List.suffix_append _ _, hplaces⟩

theorem Done.own_of_replayed {base : Db} {result : PlaceBetResult}
    (h : Done base i s w (.placeBet params) (.ok (.bet result))) (hr : result.replayed = true) :
    own i w.log = [] := by
  cases h with
  | betReplayed hown => exact hown
  | placed => cases hr

section Moments

variable {s₀ s : State sql} {q : Proc sql} {r : Except Err Res} {base : Db}

theorem Run.moment {K : Policy sql} (h₀ : Run K base s₀) (hs : Reachable body K.ok s₀ s)
    (hi : s₀.procs i = none) (hq : s.procs i = some q) {m : Mark sql} (hm : m ∈ q.loc.trace) :
    ∃ older, s₀.world.log <:+ older ∧ older <:+ s.world.log ∧ older.length = m.index ∧
      m.db = replay base older := by
  obtain ⟨older, hsuf, hlen, hdb⟩ := (((h₀.later hs).obeys.procs i q hq).marks m hm).seen
  have hle : s₀.world.log.length ≤ older.length := hlen ▸ hs.index_le hi hq hm
  exact ⟨older, List.suffix_of_suffix_length_le hs.log_suffix hsuf hle, hsuf, hlen, hdb⟩

theorem servedAt_unchanged {older : List (Commit sql)} {now : ℕ} {x : Except Err Reply}
    (after : s₀.world.log <:+ older) (before : older <:+ s.world.log)
    (time : s₀.world.clock ≤ now ∧ now ≤ s.world.clock) (hown : own i s.world.log = [])
    (hturn : (playerOf (replay base older) params.userId).turn (replay (S := sql) base older).rounds now
      params = (x, playerOf (replay base older) params.userId)) (hr : outcome r = x.map some) :
    ServedAt base params i s₀ s r older now := by
  refine ⟨after, before, time, ?_⟩
  rintro y rfl
  rw [hturn]
  exact ⟨hr, .inl ⟨hown, rfl⟩⟩

theorem suffix_before {c : Commit sql} {old older log : List (Commit sql)} (hs : old <:+ log)
    (hs' : (c :: older) <:+ log) (hc : c ∉ old) : old <:+ older := by
  rcases List.suffix_or_suffix_of_suffix hs hs' with hle | hle
  · rcases List.suffix_cons_iff.mp hle with rfl | hle
    · exact absurd List.mem_cons_self hc
    · exact hle
  · exact absurd (hle.subset List.mem_cons_self) hc

/-- A request takes effect at one moment between its begin and its answer, unless the database gives up
on it or another request with its key comes in between. -/
theorem placements_linearize (h₀ : Run (Policy.calls noBetReference) base s₀) (hb : BetsLinked base)
    (hs : Reachable body (Policy.calls noBetReference).ok s₀ s) (hi : s₀.procs i = none)
    (hq : s.procs i = some q) (hcall : q.call = .placeBet params) (hr : q.prog.Ends r) :
    Linearized base params i s₀ s q.loc r := by
  have h : Run (Policy.calls noBetReference) base s := h₀.later hs
  have hchron := h.chronicle
  have hquiet := h₀.invariant.quiet i hi
  have hsince : Since s₀.world.clock i s := .reachable hs hi hquiet
  obtain ⟨w, hrely, hdone, hplacement⟩ := h.reasons hq hr
  obtain ⟨r', rfl, hreason⟩ := hplacement params hcall
  rw [hcall] at hdone
  have hown : own i s.world.log = own i w.log := hrely.own
  have hclock : s₀.world.clock ≤ s.world.clock := hsince.clock
  cases hreason with
  | @placed result hne =>
    change Done base i q.loc w (.placeBet params) (.ok (.bet result)) at hdone
    cases hdone with
    | betReplayed hno => exact absurd hno hne
    | @placed _ p c b t hone hp hw =>
      have hone' : own i s.world.log = [c] := hown.trans hone
      have hmine : c ∈ own i s.world.log := hone' ▸ List.mem_singleton_self c
      obtain ⟨hmem, hproc⟩ := mem_own.mp hmine
      obtain ⟨older, hsuf, hmeets⟩ := hchron.found hmem
      have hplaces : ∃ p b t, c.writes = placed p b t ∧
          Places params p b t c.start c.trace (replay base older) := by
        have hm := hmeets.2
        rw [h.own_call hq hmine, hcall] at hm
        exact hm
      obtain ⟨p', b', t', hw', hp'⟩ := hplaces
      have hsame := hw.symm.trans hw'
      simp only [placed, post, List.cons.injEq, Write.insertBet.injEq,
        Write.insertTransaction.injEq] at hsame
      obtain ⟨rfl, -, rfl, -⟩ := hsame
      have hnot : c ∉ s₀.world.log := by
        intro hold
        have hold' : c ∈ own i s₀.world.log := mem_own.mpr ⟨hold, hproc⟩
        rw [hquiet] at hold'
        cases hold'
      have hlinked := betsLinked_replay (hchron.suffix hsuf).2 hb
      have hturn := place_turn (hp'.place (hlinked.undebited hp'.fresh))
      refine .served ⟨suffix_before hs.log_suffix hsuf hnot,
        (List.suffix_cons c older).trans hsuf, hsince.commits c hmem hproc, ?_⟩
      rintro x rfl
      rw [hturn]
      refine ⟨rfl, .inr ⟨c, hone', hsuf, ?_⟩⟩
      change _ = playerOf (applyAll c.writes (replay base older)) params.userId
      rw [hw']
  | @replayed p b m m' hp hm hm' hle hfound hmatch =>
    obtain ⟨older, -, hbefore, hlen, hdb⟩ := h₀.moment hs hi hq hm
    obtain ⟨older', hafter', hbefore', hlen', hdb'⟩ := h₀.moment hs hi hq hm'
    have hsuf : older <:+ older' :=
      List.suffix_of_suffix_length_le hbefore hbefore' (by rw [hlen, hlen']; exact hle)
    rw [hdb] at hfound hmatch
    have hfound' := (grows_replay hsuf).betOf hfound
    have hitems := itemsOf_replay (hchron.suffix hbefore') hsuf (List.mem_of_find?_eq_some hfound)
    rw [← hitems] at hmatch
    have hnone : own i w.log = [] := Done.own_of_replayed hdone rfl
    refine .served (servedAt_unchanged hafter' hbefore' (hsince.marks q hq m' hm') (hown.trans hnone)
      (place_turn ?_) rfl)
    rw [place_found hp hfound', hmatch, hdb']
    rfl
  | @reused p b m hp hm hfound hmatch =>
    obtain ⟨older, hafter, hbefore, -, hdb⟩ := h₀.moment hs hi hq hm
    rw [hdb] at hfound hmatch
    refine .served (servedAt_unchanged hafter hbefore (hsince.marks q hq m hm)
      (hown.trans hdone.own_of_error) (refused_turn ?_) rfl)
    rw [place_found hp hfound, hmatch]
    rfl
  | @invalid e he =>
    refine .served (servedAt_unchanged (List.suffix_refl _) hs.log_suffix ⟨Nat.le_refl _, hclock⟩
      (hown.trans hdone.own_of_error) (refused_turn ?_) rfl)
    rw [Player.place, he]
    rfl
  | faulted hf => exact .fault hf (hown.trans hdone.own_of_error)
  | @stopped p m e hp hm hfree hstop hnew =>
    have hnone := hown.trans hdone.own_of_error
    obtain ⟨older, hafter, hbefore, hlen, hdb⟩ := h₀.moment hs hi hq hm
    rw [hdb] at hfree
    cases hstop with
    | fault hf => exact .fault hf hnone
    | unparsed hid =>
      refine .served (servedAt_unchanged hafter hbefore (hsince.marks q hq m hm) hnone
        (refused_turn ?_) rfl)
      rw [place_new hp hfree]
      exact Player.bet_unparsed hid
    | @refused m₁ m₂ e hm₁ hm₂ hle hne hbet =>
      obtain ⟨latest, hafter₁, hbefore₁, hlen₁, hdb₁⟩ := h₀.moment hs hi hq hm₁
      have hsuf : older <:+ latest :=
        List.suffix_of_suffix_length_le hbefore hbefore₁ (by rw [hlen, hlen₁]; exact hle)
      have htime := hsince.marks q hq m₂ hm₂
      rw [hdb₁] at hbet
      cases hkey : Db.betOf (replay base latest) params.userId p.idempotencyKey with
      | none =>
        refine .served (servedAt_unchanged hafter₁ hbefore₁ htime hnone (refused_turn ?_) rfl)
        rw [place_new hp hkey]
        exact hbet
      | some b =>
        obtain ⟨c, newer, params', p', hcs, hnewer, hplaced⟩ :=
          bet_appears (hchron.suffix hbefore₁) hsuf hfree hkey
        have hproc : c.proc ≠ i := by
          intro hci
          have hmine : c ∈ own i s.world.log :=
            mem_own.mpr ⟨(hcs.trans hbefore₁).subset List.mem_cons_self, hci⟩
          rw [hnone] at hmine
          cases hmine
        exact .overtaken hnone ⟨hafter, hsuf, hbefore₁, htime, hp, hfree,
          ⟨c, newer, params', p', hcs, hnewer, hproc, hplaced⟩, hbet⟩
    | keyTaken hkey =>
      rw [hnew rfl] at hkey
      cases hkey
    | debitTaken hid hkey =>
      obtain ⟨t, ht⟩ := Option.isSome_iff_exists.mp hkey
      exact .debitTaken hnone hid (Option.isSome_iff_exists.mpr ⟨t, hrely.le.transactionOf ht⟩)

end Moments

def secondParams : PlaceBetParams := { betParams with idempotencyKey := some "k2" }

def crossedRun : List (Label sql) :=
  [.spawn 0 (.placeBet betParams), .spawn 1 (.placeBet secondParams), .run 0, .run 1, .run 0, .run 1,
    .run 0] ++ restOfPlacement 0 20 21 ++ [.run 1, .run 1, .run 1]

theorem placements_linearize_when_crossed : ∃ s q,
    (Policy.calls noBetReference).steps body (initial bettingDb [roundId]) crossedRun = some s ∧
      s.procs 1 = some q ∧ q.prog.Ends (.error (.insufficientPoints 550 450)) ∧
      Linearized bettingDb secondParams 1 (initial bettingDb [roundId]) s q.loc
        (.error (.insufficientPoints 550 450)) := by
  have hrun : ((Policy.calls noBetReference).steps body (initial bettingDb [roundId]) crossedRun).bind
      (fun s => (s.procs 1).map fun q => (q.call, q.prog.result)) =
        some (.placeBet secondParams, some (.error (.insufficientPoints 550 450))) := by decide
  obtain ⟨s, hs, hq⟩ := Option.bind_eq_some_iff.mp hrun
  obtain ⟨q, hq, hends⟩ := Option.map_eq_some_iff.mp hq
  obtain ⟨hcall, hends⟩ := Prod.mk.inj hends
  have hstart : Run (Policy.calls noBetReference) bettingDb (initial bettingDb [roundId]) :=
    ⟨[roundId], known_bettingDb, .refl⟩
  exact ⟨s, q, hs, hq, hends, placements_linearize hstart betsLinked_bettingDb
    (Policy.reachable_steps _ .refl hs) rfl hq hcall hends⟩

end JitoGame
